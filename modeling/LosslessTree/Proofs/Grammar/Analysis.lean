import LosslessTree.Grammar.Analysis

/-!
What the analysis finds out about a kind. Facts are only ever joined to those of their own kind, so
what holds of no facts and is kept by joining those of a rule holds in the end, and a kind that may
be empty stays so.
-/

namespace LosslessTree

namespace Grammar

namespace Facts

variable {token : Token} {parts : List Facts}

theorem admits_ofSequence (hadmits : (ofSequence parts).first.admits token = true) :
    ∃ part ∈ parts, part.first.admits token = true := by
  induction parts with
  | nil => simp [ofSequence] at hadmits
  | cons part rest ih =>
      unfold ofSequence at hadmits
      split at hadmits
      · rw [Lookahead.admits_union, Bool.or_eq_true] at hadmits
        rcases hadmits with hpart | hrest
        · exact ⟨part, List.mem_cons_self, hpart⟩
        · obtain ⟨other, hother, hadmits⟩ := ih hrest
          exact ⟨other, List.mem_cons_of_mem _ hother, hadmits⟩
      · exact ⟨part, List.mem_cons_self, hadmits⟩

theorem admits_ofChoice (hadmits : (ofChoice parts).first.admits token = true) :
    ∃ part ∈ parts, part.first.admits token = true := by
  induction parts with
  | nil => simp [ofChoice, none] at hadmits
  | cons part rest ih =>
      unfold ofChoice at hadmits
      rw [Lookahead.admits_union, Bool.or_eq_true] at hadmits
      rcases hadmits with hpart | hrest
      · exact ⟨part, List.mem_cons_self, hpart⟩
      · obtain ⟨other, hother, hadmits⟩ := ih hrest
        exact ⟨other, List.mem_cons_of_mem _ hother, hadmits⟩

theorem ofChoice_of_mem {part : Facts} (hpart : part ∈ parts) :
    (part.nullable = true → (ofChoice parts).nullable = true) ∧
      ∀ token, part.first.admits token = true → (ofChoice parts).first.admits token = true := by
  induction parts with
  | nil => cases hpart
  | cons first rest ih =>
      unfold ofChoice
      rcases List.mem_cons.mp hpart with heq | hmem
      · subst heq
        constructor
        · intro hnullable
          simp [hnullable]
        · intro token hadmits
          simp [hadmits]
      · obtain ⟨hrest, hfront⟩ := ih hmem
        constructor
        · intro hnullable
          simp [hrest hnullable]
        · intro token hadmits
          simp [hfront token hadmits]

theorem nullable_ofSequence (hparts : ∀ part ∈ parts, part.nullable = true) :
    (ofSequence parts).nullable = true := by
  induction parts with
  | nil => rfl
  | cons part rest ih =>
      obtain ⟨hpart, hrest⟩ := List.forall_mem_cons.mp hparts
      simp only [ofSequence, hpart, if_true, ih hrest]

end Facts

namespace FactTable

variable {table : FactTable} {rules : Rules} {kind other : NodeKind}

theorem admits_ofPattern {token : Token} {pattern : Pattern}
    (hadmits : (table.ofPattern pattern).first.admits token = true) :
    ∃ symbol ∈ pattern.symbols, (table.ofSymbol symbol).first.admits token = true := by
  cases pattern with
  | sequence symbols =>
      obtain ⟨facts, hfacts, hadmits⟩ := Facts.admits_ofSequence hadmits
      obtain ⟨symbol, hsymbol, heq⟩ := List.mem_map.mp hfacts
      exact ⟨symbol, hsymbol, heq ▸ hadmits⟩
  | choice symbols =>
      obtain ⟨facts, hfacts, hadmits⟩ := Facts.admits_ofChoice hadmits
      obtain ⟨symbol, hsymbol, heq⟩ := List.mem_map.mp hfacts
      exact ⟨symbol, hsymbol, heq ▸ hadmits⟩

theorem admits_ofRule {token : Token} {rule : Rule}
    (hadmits : (table.ofRule rule).first.admits token = true) :
    ∃ slot ∈ rule, ∃ symbol ∈ slot.pattern.symbols,
      (table.ofSymbol symbol).first.admits token = true := by
  obtain ⟨facts, hfacts, hadmits⟩ := Facts.admits_ofSequence hadmits
  obtain ⟨slot, hslot, heq⟩ := List.mem_map.mp hfacts
  subst heq
  have hpattern : (table.ofPattern slot.pattern).first.admits token = true := hadmits
  exact ⟨slot, hslot, admits_ofPattern hpattern⟩

theorem lookup_add (more : Facts) (table : FactTable) :
    (table.add kind more).lookup other =
      (table.lookup other).map fun facts => if other = kind then facts.join more else facts := by
  induction table with
  | nil => rfl
  | cons entry rest ih =>
      obtain ⟨entryKind, facts⟩ := entry
      by_cases hentry : other = entryKind
      · subst hentry
        by_cases hkind : other = kind <;> simp [add, hkind]
      · have hbeq : (other == entryKind) = false := by simpa using hentry
        have hrest : List.lookup other (add kind more ((entryKind, facts) :: rest)) =
            List.lookup other (add kind more rest) := by
          by_cases hkind : entryKind = kind
          · simp only [add, List.map_cons, if_pos hkind, List.lookup_cons, hbeq]
          · simp only [add, List.map_cons, if_neg hkind, List.lookup_cons, hbeq]
        rw [hrest, ih, List.lookup_cons, hbeq]

theorem facts_add (more : Facts) (table : FactTable) :
    (table.add kind more).facts other = table.facts other ∨
      other = kind ∧ (table.add kind more).facts other = (table.facts other).join more := by
  simp only [facts, lookup_add]
  by_cases hother : other = kind
  · cases table.lookup other with
    | none => exact .inl rfl
    | some facts => exact .inr ⟨hother, by simp [hother]⟩
  · simp [hother]

/-- An invariant of single steps is one of whole rounds, however many. -/
theorem solve_induction {I : FactTable → Prop}
    (hstep : ∀ table entry, entry ∈ rules → I table →
      I (table.add entry.1 (table.ofRule entry.2)))
    (rounds : Nat) (htable : I table) : I (solve rules rounds table) := by
  induction rounds generalizing table with
  | zero => exact htable
  | succ rounds ih =>
      unfold solve
      dsimp only
      split
      · exact htable
      · exact ih (List.foldlRecOn rules _ htable fun table htable entry hentry =>
          hstep table entry hentry htable)

theorem nullable_add {more : Facts} (hnullable : (table.facts other).nullable = true) :
    ((table.add kind more).facts other).nullable = true := by
  rcases facts_add more table with heq | ⟨-, heq⟩
  · rwa [heq]
  · rw [heq, Facts.join, hnullable]
    rfl

/-- A rule without anything that must be there makes its kind nullable in the first round. -/
theorem nullable_round {rule : Rule} (hentry : (kind, rule) ∈ rules)
    (hkind : (table.lookup kind).isSome = true)
    (hrule : ∀ table : FactTable, (table.ofRule rule).nullable = true) :
    ((round rules table).facts kind).nullable = true := by
  obtain ⟨before, after, heq⟩ := List.append_of_mem hentry
  have hbefore : ((round before table).lookup kind).isSome = true :=
    List.foldlRecOn (motive := fun table => (List.lookup kind table).isSome = true) before _ hkind
      fun table hkind entry _ => by rwa [lookup_add, Option.isSome_map]
  obtain ⟨facts, hfacts⟩ := Option.isSome_iff_exists.mp hbefore
  have hjoined : (((round before table).add kind (ofRule (round before table) rule)).facts
      kind).nullable = true := by
    rw [FactTable.facts, lookup_add, hfacts]
    simp [Facts.join, hrule]
  rw [heq, round, List.foldl_append, List.foldl_cons]
  exact List.foldlRecOn (motive := fun table => (FactTable.facts table kind).nullable = true)
    after _ hjoined fun table hnullable entry _ => nullable_add hnullable

theorem facts_initial (rules : Rules) (kind : NodeKind) :
    facts (rules.map fun entry => (entry.1, .none)) kind = .none := by
  induction rules with
  | nil => rfl
  | cons entry rest ih =>
      by_cases hkind : kind = entry.1
      · simp [facts, hkind]
      · have hbeq : (kind == entry.1) = false := by simpa using hkind
        rwa [facts, List.map_cons, List.lookup_cons, hbeq]

theorem lookup_initial {rule : Rule} (hentry : (kind, rule) ∈ rules) :
    (List.lookup kind (rules.map fun entry => (entry.1, Facts.none))).isSome = true := by
  induction rules with
  | nil => cases hentry
  | cons entry rest ih =>
      rw [List.map_cons, List.lookup_cons]
      split
      · rfl
      · next hkind =>
          rcases List.mem_cons.mp hentry with heq | hrest
          · subst heq
            simp at hkind
          · exact ih hrest

end FactTable

open FactTable

variable {rules : Rules} {kind : NodeKind}

/-- What holds of no facts, and goes over from all facts to those of the rules, holds of all that
the analysis finds out. -/
theorem analyse_induction {P : Facts → Prop} (hnone : P .none)
    (hjoin : ∀ left right, P left → P right → P (left.join right))
    (hrule : ∀ table : FactTable, (∀ kind, P (table.facts kind)) → ∀ entry ∈ rules,
      P (table.ofRule entry.2)) (kind : NodeKind) :
    P ((Rules.analyse rules).facts kind) := by
  have hsolve : ∀ kind, P ((Rules.analyse rules).facts kind) := by
    refine solve_induction (I := fun table => ∀ kind, P (table.facts kind)) ?_ _ ?_
    · intro table entry hentry htable other
      rcases facts_add (table.ofRule entry.2) table with heq | ⟨-, heq⟩
      · rw [heq]
        exact htable other
      · rw [heq]
        exact hjoin _ _ (htable other) (hrule table htable entry hentry)
    · intro kind
      rw [facts_initial]
      exact hnone
  exact hsolve kind

theorem analyse_nullable {rule : Rule} (hentry : (kind, rule) ∈ rules)
    (hrule : ∀ table : FactTable, (table.ofRule rule).nullable = true) :
    ((Rules.analyse rules).facts kind).nullable = true := by
  have hround := nullable_round hentry (lookup_initial hentry) hrule
  unfold Rules.analyse Rules.roundBound solve
  dsimp only
  split
  · next hfixed => rwa [hfixed] at hround
  · exact solve_induction (I := fun table => (table.facts kind).nullable = true)
      (fun _ _ _ => nullable_add) _ hround

theorem analyse_avoids_eof (heof : Symbol.token .eof ∉ Rules.symbols rules) {token : Token}
    (htoken : token.kind = .eof) (kind : NodeKind) :
    ((Rules.analyse rules).facts kind).first.admits token = false := by
  refine analyse_induction (P := fun facts => facts.first.admits token = false) ?_ ?_ ?_ kind
  · exact Lookahead.admits_empty token
  · intro left right hleft hright
    rw [Facts.join, Lookahead.admits_union, hleft, hright]
    rfl
  · intro table htable entry hentry
    apply Bool.eq_false_iff.mpr
    intro hadmits
    obtain ⟨slot, hslot, symbol, hsymbol, hadmits⟩ := admits_ofRule hadmits
    cases symbol with
    | token kind =>
        have hkind : kind = .eof := by simpa [ofSymbol, htoken] using hadmits
        subst hkind
        exact heof (List.mem_flatMap.mpr ⟨entry, hentry,
          List.mem_flatMap.mpr ⟨slot, hslot, hsymbol⟩⟩)
    | word text => simp [ofSymbol, Lookahead.ofWord, Lookahead.admits, htoken] at hadmits
    | node kind =>
        have hfacts : (table.facts kind).first.admits token = false := htable kind
        rw [ofSymbol, hfacts] at hadmits
        cases hadmits

theorem analyse_symbol_avoids_eof (heof : Symbol.token .eof ∉ Rules.symbols rules)
    {symbol : Symbol} (hsymbol : symbol ∈ Rules.symbols rules) {token : Token}
    (htoken : token.kind = .eof) :
    ((Rules.analyse rules).ofSymbol symbol).first.admits token = false := by
  cases symbol with
  | token kind =>
      have hkind : kind ≠ .eof := fun hkind => heof (hkind ▸ hsymbol)
      simpa [ofSymbol, htoken] using hkind
  | word text => simp [ofSymbol, Lookahead.ofWord, Lookahead.admits, htoken]
  | node kind => exact analyse_avoids_eof heof htoken kind

theorem analyse_slot_avoids_eof (heof : Symbol.token .eof ∉ Rules.symbols rules) {slot : Slot}
    (hslot : ∀ symbol ∈ slot.pattern.symbols, symbol ∈ Rules.symbols rules) {token : Token}
    (htoken : token.kind = .eof) :
    ((Rules.analyse rules).ofSlot slot).first.admits token = false := by
  apply Bool.eq_false_iff.mpr
  intro hadmits
  obtain ⟨symbol, hsymbol, hadmits⟩ := admits_ofPattern hadmits
  rw [analyse_symbol_avoids_eof heof (hslot symbol hsymbol) htoken] at hadmits
  cases hadmits

end Grammar

end LosslessTree
