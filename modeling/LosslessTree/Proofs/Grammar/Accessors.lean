import LosslessTree.Grammar.Basic
import LosslessTree.Proofs.Grammar.Conformance

/-!
How many children of a kind a rule permits. A kind that is a symbol of the rule once keeps the
multiplicity of that place; from the second time on there may be any number. Items that fill the
rule keep to that.
-/

namespace LosslessTree

namespace Grammar

def Multiplicity.Permits : Multiplicity → Nat → Prop
  | exactlyOne, count => count = 1
  | zeroOrOne, count => count ≤ 1
  | zeroOrMore, _ => True
  | oneOrMore, count => 0 < count

/-- The multiplicity of each symbol of a rule that stands for nodes of a kind. -/
def Rule.uses (kind : NodeKind) (rule : Rule) : List Multiplicity :=
  rule.flatMap fun slot =>
    List.replicate (slot.pattern.symbols.count (.node kind)) (AccessorTable.multiplicityIn slot)

namespace AccessorTable

def summary : List Multiplicity → Option Multiplicity
  | [] => none
  | [multiplicity] => some multiplicity
  | _ => some .zeroOrMore

theorem summary_append (uses : List Multiplicity) (multiplicity : Multiplicity) :
    summary (uses ++ [multiplicity]) =
      if (summary uses).isSome then some .zeroOrMore else some multiplicity := by
  match uses with
  | [] => rfl
  | [_] => rfl
  | _ :: _ :: _ => rfl

theorem lookup_replace (table : AccessorTable) (kind other : NodeKind)
    (multiplicity : Multiplicity) :
    List.lookup other
        (table.map fun entry => if entry.1 = kind then (kind, multiplicity) else entry) =
      if other = kind then (table.lookup kind).map fun _ => multiplicity
      else table.lookup other := by
  induction table with
  | nil => simp
  | cons entry rest ih =>
      obtain ⟨entryKind, entryMultiplicity⟩ := entry
      by_cases hentry : entryKind = kind
      · subst hentry
        by_cases hother : other = entryKind
        · simp [hother]
        · have hbeq : (other == entryKind) = false := by simpa using hother
          rw [if_neg hother] at ih
          simp only [List.map_cons, if_true, List.lookup_cons, hbeq, if_neg hother, ih]
      · by_cases hother : other = kind
        · have hbeq : (kind == entryKind) = false := by simpa using Ne.symm hentry
          subst hother
          rw [if_pos rfl] at ih
          simp only [List.map_cons, if_neg hentry, List.lookup_cons, hbeq, if_true, ih]
        · rw [if_neg hother] at ih
          simp only [List.map_cons, if_neg hentry, List.lookup_cons, if_neg hother, ih]

theorem lookup_add (table : AccessorTable) (kind other : NodeKind) (multiplicity : Multiplicity) :
    (table.add kind multiplicity).lookup other =
      if other = kind then
        if (table.lookup kind).isSome then some .zeroOrMore else some multiplicity
      else table.lookup other := by
  unfold add
  cases hknown : table.lookup kind with
  | some known =>
      simp only [Option.isSome_some, if_true]
      rw [lookup_replace, hknown, Option.map_some]
  | none =>
      simp only [Option.isSome_none, Bool.false_eq_true, if_false]
      rw [List.lookup_append]
      by_cases hother : other = kind
      · subst hother
        simp only [hknown, List.lookup_cons_self, Option.none_or, if_true]
      · have hbeq : (other == kind) = false := by simpa using hother
        simp only [List.lookup_cons, hbeq, List.lookup_nil, Option.or_none, if_neg hother]

theorem lookup_addSymbol {kind : NodeKind} {table : AccessorTable} {uses : List Multiplicity}
    (htable : table.lookup kind = summary uses) (multiplicity : Multiplicity) (symbol : Symbol) :
    (addSymbol multiplicity table symbol).lookup kind =
      summary (uses ++ List.replicate ([symbol].count (.node kind)) multiplicity) := by
  by_cases hsymbol : symbol = .node kind
  · subst hsymbol
    have hcount : [Symbol.node kind].count (.node kind) = 1 := by simp
    rw [hcount, List.replicate_one, summary_append, ← htable, addSymbol, lookup_add, if_pos rfl]
  · have hcount : [symbol].count (.node kind) = 0 := by
      rw [List.count_eq_zero, List.mem_singleton]
      exact Ne.symm hsymbol
    rw [hcount, List.replicate_zero, List.append_nil, ← htable]
    cases symbol with
    | token _ => rfl
    | word _ => rfl
    | node other =>
        have hother : kind ≠ other := fun heq => hsymbol (heq ▸ rfl)
        rw [addSymbol, lookup_add, if_neg hother]

theorem lookup_addSymbols {kind : NodeKind} {table : AccessorTable} {uses : List Multiplicity}
    (htable : table.lookup kind = summary uses) (multiplicity : Multiplicity)
    (symbols : List Symbol) :
    (symbols.foldl (addSymbol multiplicity) table).lookup kind =
      summary (uses ++ List.replicate (symbols.count (.node kind)) multiplicity) := by
  induction symbols generalizing table uses with
  | nil => simpa using htable
  | cons symbol rest ih =>
      rw [List.foldl_cons, ih (lookup_addSymbol htable multiplicity symbol), List.append_assoc,
        List.replicate_append_replicate, ← List.count_append, List.singleton_append]

theorem lookup_ofRule (kind : NodeKind) (rule : Rule) :
    (ofRule rule).lookup kind = summary (Rule.uses kind rule) := by
  have hslots : ∀ (rule : Rule) (table : AccessorTable) (uses : List Multiplicity),
      table.lookup kind = summary uses →
      (rule.foldl (fun table slot =>
        slot.pattern.symbols.foldl (addSymbol (multiplicityIn slot)) table) table).lookup kind =
          summary (uses ++ Rule.uses kind rule) := by
    intro rule
    induction rule with
    | nil =>
        intro table uses htable
        rw [Rule.uses, List.flatMap_nil, List.append_nil]
        exact htable
    | cons slot rest ih =>
        intro table uses htable
        rw [List.foldl_cons, ih _ _ (lookup_addSymbols htable _ slot.pattern.symbols),
          List.append_assoc]
        rfl
  exact hslots rule [] [] rfl

theorem multiplicityIn_ne_oneOrMore (slot : Slot) : multiplicityIn slot ≠ .oneOrMore := by
  unfold multiplicityIn
  split
  · exact Multiplicity.noConfusion
  · split
    · exact Multiplicity.noConfusion
    · exact Multiplicity.noConfusion
    · exact Multiplicity.noConfusion

/-- No accessor insists on a child where there may be several. -/
theorem lookup_ofRule_ne_oneOrMore (kind : NodeKind) (rule : Rule) :
    (ofRule rule).lookup kind ≠ some .oneOrMore := by
  rw [lookup_ofRule]
  match huses : Rule.uses kind rule with
  | [] => exact (Option.some_ne_none _).symm
  | [single] =>
      have hsingle : single ∈ Rule.uses kind rule := huses ▸ List.mem_singleton.mpr rfl
      obtain ⟨slot, -, hslot⟩ := List.mem_flatMap.mp hsingle
      rw [List.eq_of_mem_replicate hslot]
      exact fun heq => multiplicityIn_ne_oneOrMore slot (Option.some.inj heq)
  | _ :: _ :: _ => exact fun heq => Multiplicity.noConfusion (Option.some.inj heq)

theorem mem_symbols_of_lookup {kind : NodeKind} {rule : Rule} {multiplicity : Multiplicity}
    (haccessor : (ofRule rule).lookup kind = some multiplicity) :
    ∃ slot ∈ rule, .node kind ∈ slot.pattern.symbols := by
  rw [lookup_ofRule] at haccessor
  cases huses : Rule.uses kind rule with
  | nil =>
      rw [huses] at haccessor
      cases haccessor
  | cons first rest =>
      have hfirst : first ∈ Rule.uses kind rule := huses ▸ List.mem_cons_self
      obtain ⟨slot, hslot, hmem⟩ := List.mem_flatMap.mp hfirst
      refine ⟨slot, hslot, List.count_pos_iff.mp ?_⟩
      exact Nat.pos_of_ne_zero (List.mem_replicate.mp hmem).1

end AccessorTable

/-! ## Children that fill a rule -/

def Counted : List Multiplicity → Nat → Prop
  | [], count => count = 0
  | [multiplicity], count => multiplicity.Permits count
  | _, _ => True

theorem counted_replicate {uses count : Nat} {multiplicity : Multiplicity}
    (hnone : uses = 0 → count = 0) (hone : uses = 1 → multiplicity.Permits count) :
    Counted (List.replicate uses multiplicity) count := by
  match uses with
  | 0 => exact hnone rfl
  | 1 => exact hone rfl
  | _ + 2 => trivial

theorem Counted.append {uses more : List Multiplicity} {count others : Nat}
    (hfirst : Counted uses count) (hsecond : Counted more others) :
    Counted (uses ++ more) (count + others) := by
  match uses, more with
  | [], _ =>
      obtain rfl : count = 0 := hfirst
      rwa [List.nil_append, Nat.zero_add]
  | [_], [] =>
      obtain rfl : others = 0 := hsecond
      exact hfirst
  | [_], _ :: _ => trivial
  | _ :: _ :: _, _ => trivial

section

variable {α : Type} {whole : Prop} {fits : Symbol → α → Prop} {kind : NodeKind} {test : α → Bool}
  (htest : ∀ symbol item, fits symbol item → (test item = true ↔ symbol = .node kind))

include htest

theorem countP_of_fits {symbol : Symbol} {item : α} (hfits : fits symbol item) :
    [item].countP test = [symbol].count (.node kind) := by
  by_cases hsymbol : symbol = .node kind
  · have hitem := (htest symbol item hfits).mpr hsymbol
    simp [hsymbol, hitem]
  · have hitem : test item = false := by
      rw [Bool.eq_false_iff]
      exact fun hitem => hsymbol ((htest symbol item hfits).mp hitem)
    simp [hsymbol, hitem]

theorem countP_of_sequence {symbols : List Symbol} {items : List α}
    (hitems : InOrder (Symbol.Accepts whole fits) symbols items) :
    items.countP test = symbols.count (.node kind) := by
  induction hitems with
  | nil => rfl
  | @cons symbol symbols items rest hsymbol _ ih =>
      rw [List.countP_append, ih, ← List.singleton_append, List.count_append]
      congr 1
      -- Only tokens may be left out, so every node of the sequence is there.
      rcases hsymbol with ⟨item, hitem, heq⟩ | ⟨-, hnode, heq⟩
      · subst heq
        exact countP_of_fits htest hitem
      · subst heq
        have hcount : [symbol].count (.node kind) = 0 := by
          rw [List.count_eq_zero, List.mem_singleton]
          exact Ne.symm (hnode kind)
        rw [hcount]
        rfl

theorem countP_le_of_pattern {pattern : Pattern} {items : List α}
    (hitems : pattern.Accepts whole fits items) :
    items.countP test ≤ pattern.symbols.count (.node kind) := by
  cases pattern with
  | sequence symbols => exact Nat.le_of_eq (countP_of_sequence htest hitems)
  | choice symbols =>
      rcases hitems with ⟨symbol, hsymbol, item, hitem, heq⟩ | ⟨-, heq⟩
      · subst heq
        rw [countP_of_fits htest hitem]
        exact (List.singleton_sublist.mpr hsymbol).count_le _
      · subst heq
        exact Nat.zero_le _

theorem countP_of_alternates {slot : Slot} {expecting : Bool} {count : Nat} {items : List α}
    (halternates : slot.Alternates whole fits expecting count items)
    (hnone : slot.pattern.symbols.count (.node kind) = 0) : items.countP test = 0 := by
  induction halternates with
  | stop => rfl
  | item hitems _ _ ih =>
      have hle := countP_le_of_pattern htest hitems
      rw [List.countP_append, ih]
      omega
  | separator _ hitem _ ih =>
      rw [← List.singleton_append, List.countP_append, ih, countP_of_fits htest hitem]
      rfl

theorem countP_of_unused {slot : Slot} {items : List α} (hfills : slot.Fills whole fits items)
    (hnone : slot.pattern.symbols.count (.node kind) = 0) : items.countP test = 0 := by
  have hpattern (hitems : slot.pattern.Accepts whole fits items) : items.countP test = 0 :=
    Nat.le_zero.mp (hnone ▸ countP_le_of_pattern htest hitems)
  unfold Slot.Fills at hfills
  split at hfills
  · exact hpattern hfills
  · rcases hfills with hnil | hitems
    · rw [hnil]
      rfl
    · exact hpattern hitems
  · obtain ⟨_, halternates⟩ := hfills
    exact countP_of_alternates htest halternates hnone
  · obtain ⟨_, -, halternates⟩ := hfills
    exact countP_of_alternates htest halternates hnone

theorem permits_of_slot {slot : Slot} {items : List α} (hfills : slot.Fills whole fits items)
    (hone : slot.pattern.symbols.count (.node kind) = 1) :
    (AccessorTable.multiplicityIn slot).Permits (items.countP test) := by
  have hpattern (hitems : slot.pattern.Accepts whole fits items) : items.countP test ≤ 1 :=
    hone ▸ countP_le_of_pattern htest hitems
  unfold Slot.Fills at hfills
  unfold AccessorTable.multiplicityIn
  split at hfills
  · next hmultiplicity =>
      simp only [hmultiplicity, Multiplicity.isRepeated, Bool.false_eq_true, if_false]
      cases hsymbols : slot.pattern with
      | sequence symbols =>
          rw [hsymbols] at hfills hone
          exact (countP_of_sequence htest hfills).trans hone
      | choice symbols => exact hpattern hfills
  · next hmultiplicity =>
      simp only [hmultiplicity, Multiplicity.isRepeated, Bool.false_eq_true, if_false]
      rcases hfills with hnil | hitems
      · rw [hnil]
        exact Nat.zero_le _
      · exact hpattern hitems
  · next hmultiplicity => simp [hmultiplicity, Multiplicity.isRepeated, Multiplicity.Permits]
  · next hmultiplicity => simp [hmultiplicity, Multiplicity.isRepeated, Multiplicity.Permits]

theorem counted_of_rule {rule : Rule} {items : List α} (hfills : Rule.Fills whole fits rule items) :
    Counted (Rule.uses kind rule) (items.countP test) := by
  induction hfills with
  | nil => rfl
  | cons hslot _ ih =>
      rw [List.countP_append, Rule.uses, List.flatMap_cons]
      exact (counted_replicate (countP_of_unused htest hslot) (permits_of_slot htest hslot)).append
        ih

/-- Items that fill a rule are as many of each kind as its accessor permits. -/
theorem permits_of_fills {rule : Rule} {items : List α} (hfills : Rule.Fills whole fits rule items)
    {multiplicity : Multiplicity}
    (haccessor : (AccessorTable.ofRule rule).lookup kind = some multiplicity) :
    multiplicity.Permits (items.countP test) := by
  have hcounted := counted_of_rule htest hfills
  rw [AccessorTable.lookup_ofRule] at haccessor
  match huses : Rule.uses kind rule with
  | [] =>
      rw [huses] at haccessor
      cases haccessor
  | [single] =>
      rw [huses] at haccessor hcounted
      cases haccessor
      exact hcounted
  | _ :: _ :: _ =>
      rw [huses] at haccessor
      cases haccessor
      trivial

end

end Grammar

end LosslessTree
