import LosslessTree.Proofs.Grammar.Closure
import LosslessTree.Proofs.Grammar.Derivation

/-!
Grammars whose choices are settled by the token in front. What the analysis knows of a symbol, slot
or rule is then enough to tell where a tree of the grammar begins and where it goes on.
-/

namespace LosslessTree

namespace Lookahead

def offers (set : Lookahead) (content : Content) : Bool :=
  set.kinds.contains content.1 || (content.1 == .varId && set.words.contains content.2)

theorem admits_eq_offers (set : Lookahead) (token : Token) :
    set.admits token = set.offers token.content := rfl

@[simp] theorem offers_union (left right : Lookahead) (content : Content) :
    (left.union right).offers content = (left.offers content || right.offers content) :=
  admits_union left right (.covering content.1 0 content.2)

@[simp] theorem offers_ofKind (kind : TokenKind) (content : Content) :
    (ofKind kind).offers content = decide (kind = content.1) :=
  admits_ofKind kind (.covering content.1 0 content.2)

@[simp] theorem offers_empty (content : Content) : empty.offers content = false :=
  admits_empty (.covering content.1 0 content.2)

end Lookahead

namespace Grammar

/-! ## Facts of forms -/

structure Facts.Includes (facts other : Facts) : Prop where
  nullable : other.nullable = true → facts.nullable = true
  offers {content : Content} : other.first.offers content = true →
    facts.first.offers content = true

namespace Facts

theorem offers_cons (part : Facts) (rest : List Facts) (content : Content) :
    (ofSequence (part :: rest)).first.offers content =
      (part.first.offers content || part.nullable && (ofSequence rest).first.offers content) := by
  rw [ofSequence]
  split
  · next hpart => simp [hpart]
  · next hpart => simp [hpart]

theorem nullable_cons (part : Facts) (rest : List Facts) :
    (ofSequence (part :: rest)).nullable = (part.nullable && (ofSequence rest).nullable) := by
  rw [ofSequence]
  split
  · next hpart => simp [hpart]
  · next hpart => simp [hpart]

theorem nullable_append (parts more : List Facts) :
    (ofSequence (parts ++ more)).nullable =
      ((ofSequence parts).nullable && (ofSequence more).nullable) := by
  induction parts with
  | nil => rfl
  | cons part rest ih => rw [List.cons_append, nullable_cons, nullable_cons, ih, Bool.and_assoc]

theorem offers_append (parts more : List Facts) (content : Content) :
    (ofSequence (parts ++ more)).first.offers content =
      ((ofSequence parts).first.offers content ||
        (ofSequence parts).nullable && (ofSequence more).first.offers content) := by
  induction parts with
  | nil => simp [ofSequence]
  | cons part rest ih =>
      rw [List.cons_append, offers_cons, offers_cons, nullable_cons, ih]
      cases part.nullable <;> simp [Bool.or_assoc]

namespace Includes

variable {facts other : Facts} {parts more others : List Facts}

theorem trans {third : Facts} (hfirst : facts.Includes other) (hsecond : other.Includes third) :
    facts.Includes third :=
  ⟨hfirst.nullable ∘ hsecond.nullable, hfirst.offers ∘ hsecond.offers⟩

theorem cons (hfirst : facts.Includes (ofSequence parts))
    (hrest : (ofSequence more).Includes (ofSequence others)) :
    (ofSequence (facts :: more)).Includes (ofSequence (parts ++ others)) where
  nullable hnullable := by
    rw [nullable_append, Bool.and_eq_true] at hnullable
    rw [nullable_cons, hfirst.nullable hnullable.1, hrest.nullable hnullable.2]
    rfl
  offers {content} hoffers := by
    rw [offers_append, Bool.or_eq_true, Bool.and_eq_true] at hoffers
    rw [offers_cons]
    rcases hoffers with hfront | ⟨hnullable, hbehind⟩
    · rw [hfirst.offers hfront, Bool.true_or]
    · rw [hfirst.nullable hnullable, hrest.offers hbehind, Bool.true_and, Bool.or_true]

theorem append_of_solid (hincludes : facts.Includes (ofSequence parts))
    (hsolid : facts.nullable = false) : facts.Includes (ofSequence (parts ++ more)) := by
  have hparts : (ofSequence parts).nullable = false := by
    apply Bool.eq_false_iff.mpr
    intro hnullable
    rw [hincludes.nullable hnullable] at hsolid
    cases hsolid
  constructor
  · intro hnullable
    rw [nullable_append, hparts] at hnullable
    cases hnullable
  · intro content hoffers
    rw [offers_append, hparts, Bool.false_and, Bool.or_false] at hoffers
    exact hincludes.offers hoffers

theorem choice (hpart : other ∈ parts) : (ofChoice parts).Includes (ofSequence [other]) := by
  obtain ⟨hnullable, hadmits⟩ := ofChoice_of_mem hpart
  constructor
  · intro hempty
    rw [nullable_cons, Bool.and_eq_true] at hempty
    exact hnullable hempty.1
  · intro content hoffers
    have hother : other.first.offers content = true := by
      rw [offers_cons] at hoffers
      simpa [ofSequence] using hoffers
    exact hadmits (.covering content.1 0 content.2) hother

end Includes

end Facts

def FactTable.ofForm (table : FactTable) (form : List Symbol) : Facts :=
  .ofSequence (form.map table.ofSymbol)

/-- Only patterns that must be there exactly once may be empty. -/
def Rule.Solid (table : FactTable) (rule : Rule) : Prop :=
  ∀ slot ∈ rule, slot.multiplicity ≠ .exactlyOne →
    (table.ofPattern slot.pattern).nullable = false

def Rules.Solid (rules : Rules) : Prop :=
  ∀ entry ∈ rules, Rule.Solid (Rules.analyse rules) entry.2

section

variable {table : FactTable} {form : List Symbol}

theorem includes_pattern {pattern : Pattern} (haccepts : pattern.Accepts True (· = ·) form) :
    (table.ofPattern pattern).Includes (table.ofForm form) := by
  cases pattern with
  | sequence symbols =>
      rw [form_of_sequence haccepts]
      exact ⟨id, id⟩
  | choice symbols =>
      obtain ⟨symbol, hsymbol, rfl⟩ := form_of_choice haccepts
      exact .choice (List.mem_map_of_mem hsymbol)

theorem includes_repeats {slot : Slot} (hsolid : (table.ofPattern slot.pattern).nullable = false)
    {count : Nat} (hcount : 0 < count) (hrepeats : slot.Repeats True (· = ·) true count form) :
    (table.ofPattern slot.pattern).Includes (table.ofForm form) := by
  cases hrepeats with
  | stop => exact absurd hcount (Nat.lt_irrefl 0)
  | item hitems _ =>
      -- The first match is not empty, and so the later ones and the separators do not matter.
      rw [FactTable.ofForm, List.map_append]
      exact (includes_pattern hitems).append_of_solid hsolid

theorem includes_slot {slot : Slot} (hsolid : slot.multiplicity ≠ .exactlyOne →
      (table.ofPattern slot.pattern).nullable = false)
    (haccepts : slot.Accepts True (· = ·) form) :
    (table.ofSlot slot).Includes (table.ofForm form) := by
  have hpattern : (table.ofSlot slot).Includes (table.ofPattern slot.pattern) :=
    ⟨fun hnullable => by simp [FactTable.ofSlot, hnullable], id⟩
  have hempty : slot.multiplicity.allowsZero = true →
      (table.ofSlot slot).Includes (table.ofForm []) := by
    intro hzero
    refine ⟨fun _ => by simp [FactTable.ofSlot, hzero], fun hoffers => ?_⟩
    simp [FactTable.ofForm, Facts.ofSequence] at hoffers
  unfold Slot.Accepts at haccepts
  cases hmultiplicity : slot.multiplicity with
  | exactlyOne =>
      simp only [hmultiplicity] at haccepts
      exact hpattern.trans (includes_pattern haccepts)
  | zeroOrOne =>
      simp only [hmultiplicity] at haccepts
      rcases haccepts with hnil | haccepts
      · subst hnil
        exact hempty (by rw [hmultiplicity]; rfl)
      · exact hpattern.trans (includes_pattern haccepts)
  | zeroOrMore =>
      simp only [hmultiplicity] at haccepts
      obtain ⟨count, hrepeats⟩ := haccepts
      cases count with
      | zero =>
          cases hrepeats
          exact hempty (by rw [hmultiplicity]; rfl)
      | succ count =>
          have hsome := hsolid (by rw [hmultiplicity]; exact Multiplicity.noConfusion)
          exact hpattern.trans (includes_repeats hsome (Nat.succ_pos count) hrepeats)
  | oneOrMore =>
      simp only [hmultiplicity] at haccepts
      obtain ⟨count, hcount, hrepeats⟩ := haccepts
      have hsome := hsolid (by rw [hmultiplicity]; exact Multiplicity.noConfusion)
      exact hpattern.trans (includes_repeats hsome (hcount trivial) hrepeats)

theorem includes_rule {rule : Rule} (hsolid : rule.Solid table)
    (haccepts : Rule.Accepts True (· = ·) rule form) :
    (table.ofRule rule).Includes (table.ofForm form) := by
  induction haccepts with
  | nil => exact ⟨id, id⟩
  | cons hitems _ ih =>
      obtain ⟨hslot, hslots⟩ := List.forall_mem_cons.mp hsolid
      rw [FactTable.ofForm, List.map_append]
      exact (includes_slot hslot hitems).cons (ih hslots)

end

/-! ## Facts of trees -/

/-- Facts of a front that allow for some contents: if there are none it may be empty, and otherwise
the first of them may stand there. -/
structure Facts.Allows (facts : Facts) (contents : List Content) : Prop where
  nullable : contents = [] → facts.nullable = true
  offers {content : Content} {more : List Content} : contents = content :: more →
    facts.first.offers content = true

theorem Facts.Includes.allows {facts other : Facts} {contents : List Content}
    (hincludes : facts.Includes other) (hallows : other.Allows contents) :
    facts.Allows contents :=
  ⟨hincludes.nullable ∘ hallows.nullable, hincludes.offers ∘ hallows.offers⟩

theorem Facts.Allows.cons {facts : Facts} {parts : List Facts} {contents more : List Content}
    (hfacts : facts.Allows contents) (hparts : (ofSequence parts).Allows more) :
    (ofSequence (facts :: parts)).Allows (contents ++ more) where
  nullable hnil := by
    obtain ⟨hcontents, hmore⟩ := List.append_eq_nil_iff.mp hnil
    rw [nullable_cons, hfacts.nullable hcontents, hparts.nullable hmore]
    rfl
  offers {content rest} hcons := by
    rw [offers_cons]
    cases hcontents : contents with
    | nil =>
        rw [hcontents, List.nil_append] at hcons
        rw [hfacts.nullable hcontents, hparts.offers hcons, Bool.true_and, Bool.or_true]
    | cons first others =>
        rw [hcontents, List.cons_append] at hcons
        rw [← (List.cons.inj hcons).1, hfacts.offers hcontents, Bool.true_or]

theorem allows_form {table : FactTable} {branches : List Branch}
    (hbelow : ∀ branch ∈ branches, (table.ofSymbol branch.symbol).Allows branch.tree.yield) :
    (table.ofForm (branches.map (·.symbol))).Allows (contentsOf branches) := by
  induction branches with
  | nil => exact ⟨fun _ => rfl, fun hcons => nomatch hcons⟩
  | cons branch rest ih =>
      obtain ⟨hbranch, hrest⟩ := List.forall_mem_cons.mp hbelow
      exact hbranch.cons (ih hrest)

theorem allows_matched {table : FactTable} {symbol : Symbol} {content : Content}
    (hmatches : symbol.Matches content) : (table.ofSymbol symbol).Allows [content] := by
  refine ⟨fun hnil => (nomatch hnil), fun hcons => ?_⟩
  obtain rfl := (List.cons.inj hcons).1
  cases symbol with
  | token kind => simpa [FactTable.ofSymbol] using hmatches.symm
  | word text =>
      have hcontent : content = (.varId, text) := hmatches
      simp [FactTable.ofSymbol, Lookahead.offers, Lookahead.ofWord, hcontent]
  | node kind => cases hmatches

variable {rules : Rules} {start : NodeKind}

theorem includes_kind {kind : NodeKind} {rule : Rule} (hrule : (kind, rule) ∈ rules) :
    ((Rules.analyse rules).ofSymbol (.node kind)).Includes ((Rules.analyse rules).ofRule rule) where
  nullable := analyse_empties hrule
  offers {content} hoffers := by
    have hadmits : ((Rules.analyse rules).ofRule rule).first.admits
        (.covering content.1 0 content.2) = true := hoffers
    exact analyse_offers hrule hadmits

/-! ## One token of lookahead -/

/-- In a form that derives from the start kind, a slot stands in front of some symbols. -/
inductive Slot.Precedes (rules : Rules) (start : NodeKind) (slot : Slot) : List Symbol → Prop where
  | place {kind : NodeKind} {front back : List Slot} {before symbols own rest after : List Symbol}
      (hderives : Derives rules [.node start] (before ++ .node kind :: after))
      (hrule : (kind, front ++ slot :: back) ∈ rules)
      (hfront : Rule.Accepts True (· = ·) front symbols) (hslot : slot.Accepts True (· = ·) own)
      (hback : Rule.Accepts True (· = ·) back rest) : Precedes rules start slot (rest ++ after)

/-- The token in front settles what to do, in forms that derive from the start kind. -/
structure LL1 (rules : Rules) (start : NodeKind) : Prop where
  /-- Symbols of a choice have nothing in common. -/
  choice {kind : NodeKind} {rule : Rule} {slot : Slot} {symbols : List Symbol}
      {left right : Symbol} : (kind, rule) ∈ rules → slot ∈ rule →
    slot.pattern = .choice symbols → left ∈ symbols → right ∈ symbols → left ≠ right →
      (∀ content, ((Rules.analyse rules).ofSymbol left).first.offers content = true →
        ((Rules.analyse rules).ofSymbol right).first.offers content = false) ∧
      (((Rules.analyse rules).ofSymbol left).nullable = true →
        ((Rules.analyse rules).ofSymbol right).nullable = false)
  solid : Rules.Solid rules
  -- A symbol that may be empty needs no condition of its own. It is entered whatever comes, and
  -- then the slots below it are apart from that.
  /-- What may come after a slot that may be empty is not taken for its front. -/
  apart {slot : Slot} {after : List Symbol} {content : Content} :
    slot.Precedes rules start after → ((Rules.analyse rules).ofSlot slot).nullable = true →
      Leads rules after content →
        ((Rules.analyse rules).ofSlot slot).first.offers content = false
  /-- What may come after a repeated slot does not go on with it. -/
  ended {slot : Slot} {after : List Symbol} {content : Content} :
    slot.Precedes rules start after → slot.multiplicity.isRepeated = true →
      Leads rules after content →
        ((Rules.analyse rules).ofSlot slot).first.offers content = false ∧
          slot.separator ≠ some content.1

theorem LL1.solid_of_repeated (hsettled : LL1 rules start) {kind : NodeKind} {rule : Rule}
    {slot : Slot} (hrule : (kind, rule) ∈ rules) (hslot : slot ∈ rule)
    (hmultiplicity : slot.multiplicity.isRepeated = true) :
    ((Rules.analyse rules).ofPattern slot.pattern).nullable = false := by
  apply hsettled.solid _ hrule slot hslot
  intro hone
  rw [hone] at hmultiplicity
  cases hmultiplicity

/-- What the analysis knows of a symbol allows for every tree that it derives. -/
theorem Derivation.allows (hsettled : LL1 rules start) {symbol : Symbol} {tree : Outline String}
    (hderivation : Derivation rules symbol tree) :
    ((Rules.analyse rules).ofSymbol symbol).Allows tree.yield := by
  induction hderivation with
  | token kind text => exact allows_matched rfl
  | word text => exact allows_matched rfl
  | node hrule hbranches _ ih =>
      rw [yield_node]
      have hrules := includes_rule (hsettled.solid _ hrule) (Rule.symbols_of_labels hbranches)
      exact ((includes_kind hrule).trans hrules).allows (allows_form ih)

section

variable {levels : Nat} {branches : List Branch} (hsettled : LL1 rules start)
  (hbelow : ∀ branch ∈ branches, branch.Derived rules levels)

include hsettled hbelow

theorem allows_branches :
    ((Rules.analyse rules).ofForm (branches.map (·.symbol))).Allows (contentsOf branches) :=
  allows_form fun branch hbranch => (hbelow branch hbranch).derivation.allows hsettled

theorem allows_pattern {pattern : Pattern}
    (haccepts : pattern.Accepts True Symbol.Labels branches) :
    ((Rules.analyse rules).ofPattern pattern).Allows (contentsOf branches) :=
  (includes_pattern (Pattern.symbols_of_labels haccepts)).allows (allows_branches hsettled hbelow)

theorem allows_slots {slots : Rule} (hsolid : slots.Solid (Rules.analyse rules))
    (haccepts : Rule.Accepts True Symbol.Labels slots branches) :
    ((Rules.analyse rules).ofRule slots).Allows (contentsOf branches) :=
  (includes_rule hsolid (Rule.symbols_of_labels haccepts)).allows (allows_branches hsettled hbelow)

theorem contents_ne_nil {pattern : Pattern}
    (hsolid : ((Rules.analyse rules).ofPattern pattern).nullable = false)
    (haccepts : pattern.Accepts True Symbol.Labels branches) : contentsOf branches ≠ [] := by
  intro hnil
  rw [(allows_pattern hsettled hbelow haccepts).nullable hnil] at hsolid
  cases hsolid

variable {kind : NodeKind} {rule : Rule} {slot : Slot} (hrule : (kind, rule) ∈ rules)
  (hslot : slot ∈ rule)

include hrule hslot

theorem allows_slot (haccepts : slot.Accepts True Symbol.Labels branches) :
    ((Rules.analyse rules).ofSlot slot).Allows (contentsOf branches) :=
  (includes_slot (hsettled.solid _ hrule slot hslot) (Slot.symbols_of_labels haccepts)).allows
    (allows_branches hsettled hbelow)

theorem offers_of_repeats {expecting : Bool} {count : Nat}
    (hrepeats : slot.Repeats True Symbol.Labels expecting count branches)
    (hmultiplicity : slot.multiplicity.isRepeated = true) {content : Content}
    {others : List Content} (hcontents : contentsOf branches = content :: others) :
    ((Rules.analyse rules).ofSlot slot).first.offers content = true ∨
      slot.separator = some content.1 := by
  have hsolid := hsettled.solid_of_repeated hrule hslot hmultiplicity
  cases hrepeats with
  | stop => cases hcontents
  | item hitems _ =>
      left
      obtain ⟨hfirst, -⟩ := List.forall_mem_append.mp hbelow
      have hallows := allows_pattern hsettled hfirst hitems
      have hsome := contents_ne_nil hsettled hfirst hsolid hitems
      rw [contentsOf_append] at hcontents
      cases hitem : contentsOf _ with
      | nil => exact absurd hitem hsome
      | cons first more =>
          rw [hitem, List.cons_append] at hcontents
          rw [← (List.cons.inj hcontents).1]
          exact hallows.offers hitem
  | @separator kind count branch others hseparator hlabels _ =>
      right
      have hderivation := (hbelow branch List.mem_cons_self).derivation
      rw [← show _ = branch.symbol from hlabels] at hderivation
      obtain ⟨symbol, tree⟩ := branch
      cases hderivation with
      | token kind text =>
          rw [contentsOf_cons] at hcontents
          rw [hseparator, ← (List.cons.inj hcontents).1]

end

/-! ## What comes after -/

/-- The first of the contents to come leads what stands behind, and is in the set that is passed
on to recover at. -/
def Awaits (rules : Rules) (after : List Symbol) (recovery : Lookahead) (rest : List Content) :
    Prop :=
  ∀ content more, rest = content :: more →
    Leads rules after content ∧ recovery.offers content = true

theorem Awaits.prepend {symbols after : List Symbol} {set recovery : Lookahead}
    {contents rest : List Content} (hrest : Awaits rules after recovery rest)
    (hopens : Opens rules symbols contents)
    (hoffers : ∀ content more, contents = content :: more → set.offers content = true) :
    Awaits rules (symbols ++ after) (set.union recovery) (contents ++ rest) := by
  intro content more hcons
  cases hcontents : contents with
  | nil =>
      rw [hcontents, List.nil_append] at hcons
      obtain ⟨hleads, hrecovery⟩ := hrest content more hcons
      refine ⟨hleads.of_derives (hopens.vanishes hcontents after), ?_⟩
      simp [hrecovery]
  | cons first others =>
      rw [hcontents, List.cons_append] at hcons
      obtain rfl := (List.cons.inj hcons).1
      refine ⟨hopens.leads hcontents after, ?_⟩
      simp [hoffers first others hcontents]

end Grammar

end LosslessTree
