import LosslessTree.Proofs.Grammar.Prediction

/-!
A check that one token of lookahead is enough. It asks that a slot that may be empty, or that is
repeated, has something behind it in its own rule that is there and begins otherwise. What may
begin there is known, since the analysis covers whatever leads a form.
-/

namespace LosslessTree

namespace Lookahead

/-- Whether no content is in both sets. A name may be in one as a kind, in the other as a word. -/
def apart (left right : Lookahead) : Bool :=
  left.kinds.toList.all (!right.kinds.contains ·) && left.words.all (!right.words.contains ·)
    && (!left.kinds.contains .varId || right.words.isEmpty)
    && (!right.kinds.contains .varId || left.words.isEmpty)

theorem offers_cases {set : Lookahead} {content : Content} (hoffers : set.offers content = true) :
    set.kinds.contains content.1 = true ∨ content.1 = .varId ∧ content.2 ∈ set.words := by
  simpa [offers] using hoffers

theorem not_offers_of_apart {left right : Lookahead} (hapart : left.apart right = true)
    {content : Content} (hleft : left.offers content = true) : right.offers content = false := by
  simp only [apart, Bool.and_eq_true, List.all_eq_true, Bool.or_eq_true, Bool.not_eq_true',
    List.isEmpty_iff] at hapart
  obtain ⟨⟨⟨hkinds, hwords⟩, hleftNames⟩, hrightNames⟩ := hapart
  apply Bool.eq_false_iff.mpr
  intro hright
  rcases offers_cases hleft with hkind | ⟨hname, hword⟩
  · rcases offers_cases hright with hother | ⟨hname, hother⟩
    · rw [hkinds _ (KindSet.mem_toList.mpr hkind)] at hother
      cases hother
    · rw [hname] at hkind
      rw [hkind] at hleftNames
      rw [hleftNames.resolve_left Bool.true_eq_false.mp] at hother
      cases hother
  · rcases offers_cases hright with hother | ⟨-, hother⟩
    · rw [hname] at hother
      rw [hother] at hrightNames
      rw [hrightNames.resolve_left Bool.true_eq_false.mp] at hword
      cases hword
    · have hnone := hwords _ hword
      rw [List.contains_iff_mem.mpr hother] at hnone
      cases hnone

end Lookahead

namespace Grammar

/-! ## What leads a form -/

theorem Facts.Includes.append {parts more others rest : List Facts}
    (hfirst : (ofSequence parts).Includes (ofSequence others))
    (hsecond : (ofSequence more).Includes (ofSequence rest)) :
    (ofSequence (parts ++ more)).Includes (ofSequence (others ++ rest)) where
  nullable hnullable := by
    rw [nullable_append, Bool.and_eq_true] at hnullable
    rw [nullable_append, hfirst.nullable hnullable.1, hsecond.nullable hnullable.2]
    rfl
  offers {content} hoffers := by
    rw [offers_append, Bool.or_eq_true, Bool.and_eq_true] at hoffers
    rw [offers_append]
    rcases hoffers with hfront | ⟨hnullable, hbehind⟩
    · rw [hfirst.offers hfront, Bool.true_or]
    · rw [hfirst.nullable hnullable, hsecond.offers hbehind, Bool.true_and, Bool.or_true]

variable {rules : Rules}

theorem Produces.includes (hsolid : Rules.Solid rules) {form other : List Symbol}
    (hproduces : Produces rules form other) :
    ((Rules.analyse rules).ofForm form).Includes ((Rules.analyse rules).ofForm other) := by
  cases hproduces with
  | @rule kind rule symbols before after hrule hsymbols =>
      have hkind := (includes_kind hrule).trans (includes_rule (hsolid _ hrule) hsymbols)
      simp only [FactTable.ofForm, List.map_append, List.map_cons, List.append_assoc]
      exact .append ⟨id, id⟩ (.cons hkind ⟨id, id⟩)

theorem Derives.includes (hsolid : Rules.Solid rules) {form other : List Symbol}
    (hderives : Derives rules form other) :
    ((Rules.analyse rules).ofForm form).Includes ((Rules.analyse rules).ofForm other) := by
  induction hderives with
  | refl => exact ⟨id, id⟩
  | tail _ hproduces ih => exact ih.trans (hproduces.includes hsolid)

/-- Whatever leads a form is known to the analysis. -/
theorem Leads.offered (hsolid : Rules.Solid rules) {form : List Symbol} {content : Content}
    (hleads : Leads rules form content) :
    ((Rules.analyse rules).ofForm form).first.offers content = true := by
  obtain ⟨symbol, rest, hderives, hmatches⟩ := hleads
  apply (hderives.includes hsolid).offers
  rw [FactTable.ofForm, List.map_cons, Facts.offers_cons, (allows_matched hmatches).offers rfl,
    Bool.true_or]

/-! ## The check -/

def Slot.own (table : FactTable) (slot : Slot) : Lookahead :=
  match slot.separator with
  | .some separator => (table.ofSlot slot).first.union (.ofKind separator)
  | .none => (table.ofSlot slot).first

def Slot.isSettled (table : FactTable) (slot : Slot) (behind : Facts) : Bool :=
  (!(table.ofSlot slot).nullable && !slot.multiplicity.isRepeated)
    || (!behind.nullable && (slot.own table).apart behind.first)

def Rule.isSettled (table : FactTable) : Rule → Bool
  | [] => true
  | slot :: behind => slot.isSettled table (table.ofRule behind) && isSettled table behind

def Pattern.isParted (table : FactTable) : Pattern → Bool
  | .sequence _ => true
  | .choice symbols => symbols.all fun left => symbols.all fun right =>
    left == right || (table.ofSymbol left).first.apart (table.ofSymbol right).first
      && !((table.ofSymbol left).nullable && (table.ofSymbol right).nullable)

def Slot.isSolid (table : FactTable) (slot : Slot) : Bool :=
  slot.multiplicity == .exactlyOne || !(table.ofPattern slot.pattern).nullable

def Rules.isSettled (rules : Rules) : Bool :=
  rules.all fun entry => Rule.isSettled (Rules.analyse rules) entry.2
    && entry.2.all fun slot =>
      slot.pattern.isParted (Rules.analyse rules) && slot.isSolid (Rules.analyse rules)

theorem Rule.isSettled_at {table : FactTable} {front back : Rule} {slot : Slot}
    (hsettled : Rule.isSettled table (front ++ slot :: back) = true) :
    slot.isSettled table (table.ofRule back) = true := by
  induction front with
  | nil => exact (Bool.and_eq_true_iff.mp hsettled).1
  | cons first rest ih => exact ih (Bool.and_eq_true_iff.mp hsettled).2

theorem Slot.apart_of_isSettled {table : FactTable} {slot : Slot} {behind : Facts}
    (hsettled : slot.isSettled table behind = true)
    (hslot : (table.ofSlot slot).nullable = true ∨ slot.multiplicity.isRepeated = true) :
    behind.nullable = false ∧ (slot.own table).apart behind.first = true := by
  simp only [isSettled, Bool.or_eq_true, Bool.and_eq_true, Bool.not_eq_true'] at hsettled
  apply hsettled.resolve_left
  rintro ⟨hnullable, hrepeated⟩
  rcases hslot with hslot | hslot
  · rw [hnullable] at hslot
    cases hslot
  · rw [hrepeated] at hslot
    cases hslot

theorem Slot.not_own {table : FactTable} {slot : Slot} {content : Content}
    (hown : (slot.own table).offers content = false) :
    (table.ofSlot slot).first.offers content = false ∧ slot.separator ≠ Option.some content.1 := by
  unfold own at hown
  cases hseparator : slot.separator with
  | none =>
      rw [hseparator] at hown
      exact ⟨hown, Option.some_ne_none _ ∘ Eq.symm⟩
  | some separator =>
      rw [hseparator] at hown
      simpa using hown

section

variable {start : NodeKind} (hsettled : Rules.isSettled rules = true)

include hsettled

theorem Rules.solid_of_isSettled : Rules.Solid rules := by
  intro entry hentry slot hslot hmultiplicity
  have hrule := (Bool.and_eq_true_iff.mp (List.all_eq_true.mp hsettled entry hentry)).2
  have hsolid := (Bool.and_eq_true_iff.mp (List.all_eq_true.mp hrule slot hslot)).2
  simpa [Slot.isSolid, hmultiplicity] using hsolid

theorem Slot.Precedes.not_own {slot : Slot} {after : List Symbol} {content : Content}
    (hprecedes : slot.Precedes rules start after)
    (hslot : ((Rules.analyse rules).ofSlot slot).nullable = true ∨
      slot.multiplicity.isRepeated = true) (hleads : Leads rules after content) :
    ((Rules.analyse rules).ofSlot slot).first.offers content = false ∧
      slot.separator ≠ Option.some content.1 := by
  have hsolid := Rules.solid_of_isSettled hsettled
  cases hprecedes with
  | @place kind front back _ _ _ rest after _ hrule _ _ hback =>
      have hrules := (Bool.and_eq_true_iff.mp (List.all_eq_true.mp hsettled _ hrule)).1
      obtain ⟨hnullable, hapart⟩ := Slot.apart_of_isSettled (Rule.isSettled_at hrules) hslot
      have hbehind : Rule.Solid (Rules.analyse rules) back := fun other hother =>
        hsolid _ hrule other (List.mem_append_right _ (List.mem_cons_of_mem _ hother))
      have hoffers := hleads.offered hsolid
      rw [FactTable.ofForm, List.map_append] at hoffers
      have hfirst := ((includes_rule hbehind hback).append_of_solid hnullable).offers hoffers
      apply Slot.not_own
      apply Bool.eq_false_iff.mpr
      intro hown
      rw [Lookahead.not_offers_of_apart hapart hown] at hfirst
      cases hfirst

/-- Rules that pass the check need one token of lookahead, whatever the start kind. -/
theorem LL1.of_isSettled : LL1 rules start where
  choice {kind rule slot symbols left right} hrule hslot hpattern hleft hright hne := by
    have hslots := (Bool.and_eq_true_iff.mp (List.all_eq_true.mp hsettled _ hrule)).2
    have hparted := (Bool.and_eq_true_iff.mp (List.all_eq_true.mp hslots slot hslot)).1
    rw [hpattern] at hparted
    have hpair := List.all_eq_true.mp (List.all_eq_true.mp hparted left hleft) right hright
    simp only [Bool.or_eq_true, beq_iff_eq, hne, false_or, Bool.and_eq_true, Bool.not_eq_true',
      Bool.and_eq_false_iff] at hpair
    obtain ⟨hapart, hnullable⟩ := hpair
    refine ⟨fun content => Lookahead.not_offers_of_apart hapart, fun hempty => ?_⟩
    exact hnullable.resolve_left fun hfalse => by
      rw [hfalse] at hempty
      cases hempty
  solid := Rules.solid_of_isSettled hsettled
  apart hprecedes hnullable hleads := (hprecedes.not_own hsettled (.inl hnullable) hleads).1
  ended hprecedes hrepeated hleads := hprecedes.not_own hsettled (.inr hrepeated) hleads

end

end Grammar

end LosslessTree
