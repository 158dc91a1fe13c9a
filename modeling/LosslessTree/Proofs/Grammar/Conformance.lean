import LosslessTree.Grammar.Rule

/-!
What it means that items conform to a rule: they split into one stretch for each slot, and a stretch
into matches of the slot's pattern. Where the text is not `whole`, that is, where something has been
reported missing, tokens may be left out and a choice may come to nothing; nodes are always there.
-/

namespace LosslessTree

namespace Grammar

variable {α β γ δ : Type}

/-- One stretch of items for each entry, in order. -/
inductive InOrder (accepts : β → List α → Prop) : List β → List α → Prop where
  | nil : InOrder accepts [] []
  | cons {entry : β} {entries : List β} {items rest : List α} (hitems : accepts entry items)
      (hrest : InOrder accepts entries rest) : InOrder accepts (entry :: entries) (items ++ rest)

theorem InOrder.map {accepts : β → List α → Prop} {others : γ → List δ → Prop} {entries : List β}
    {items : List α} (entryOf : β → γ) (itemOf : α → δ) (horder : InOrder accepts entries items)
    (haccepts : ∀ entry ∈ entries, ∀ items, accepts entry items →
      others (entryOf entry) (items.map itemOf)) :
    InOrder others (entries.map entryOf) (items.map itemOf) := by
  induction horder with
  | nil => exact .nil
  | cons hitems _ ih =>
      obtain ⟨hentry, hentries⟩ := List.forall_mem_cons.mp haccepts
      rw [List.map_cons, List.map_append]
      exact .cons (hentry _ hitems) (ih hentries)

theorem InOrder.append {accepts : β → List α → Prop} {entries more : List β}
    {items others : List α} (horder : InOrder accepts entries items)
    (hmore : InOrder accepts more others) :
    InOrder accepts (entries ++ more) (items ++ others) := by
  induction horder with
  | nil => exact hmore
  | cons hitems _ ih =>
      rw [List.append_assoc]
      exact .cons hitems ih

theorem InOrder.exists_append {accepts : β → List α → Prop} {entries more : List β}
    {items : List α} (horder : InOrder accepts (entries ++ more) items) :
    ∃ front back, items = front ++ back ∧ InOrder accepts entries front ∧
      InOrder accepts more back := by
  induction entries generalizing items with
  | nil => exact ⟨[], items, rfl, .nil, horder⟩
  | cons entry rest ih =>
      cases horder with
      | cons hitems hrest =>
          obtain ⟨front, back, heq, hfront, hback⟩ := ih hrest
          refine ⟨_, back, ?_, .cons hitems hfront, hback⟩
          rw [heq, List.append_assoc]

theorem InOrder.of_nil {accepts : β → List α → Prop} {entries : List β} {items : List α}
    (horder : InOrder accepts entries items) (hnil : items = []) :
    ∀ entry ∈ entries, accepts entry [] := by
  induction horder with
  | nil => exact fun _ hentry => absurd hentry List.not_mem_nil
  | cons hfirst _ ih =>
      obtain ⟨hitems, hrest⟩ := List.append_eq_nil_iff.mp hnil
      exact List.forall_mem_cons.mpr ⟨hitems ▸ hfirst, ih hrest⟩

variable (whole : Prop) (fits : Symbol → α → Prop)

def Symbol.Accepts (symbol : Symbol) (items : List α) : Prop :=
  (∃ item, fits symbol item ∧ items = [item]) ∨
    ¬whole ∧ (∀ kind, symbol ≠ .node kind) ∧ items = []

def Pattern.Accepts : Pattern → List α → Prop
  | .sequence symbols, items => InOrder (Symbol.Accepts whole fits) symbols items
  | .choice symbols, items =>
    (∃ symbol ∈ symbols, ∃ item, fits symbol item ∧ items = [item]) ∨ ¬whole ∧ items = []

/-- So many matches of a repeated slot, from where one may begin, or from behind one. Single
separators stand between them, and one may stand behind the last. -/
inductive Slot.Repeats (slot : Slot) : (expecting : Bool) → (count : Nat) → List α → Prop where
  | stop (expecting : Bool) : Repeats slot expecting 0 []
  | item {count : Nat} {items rest : List α} (hitems : slot.pattern.Accepts whole fits items)
      (hrest : Repeats slot slot.separator.isNone count rest) :
      Repeats slot true (count + 1) (items ++ rest)
  | separator {kind : TokenKind} {count : Nat} {item : α} {rest : List α}
      (hseparator : slot.separator = Option.some kind) (hitem : fits (.token kind) item)
      (hrest : Repeats slot true count rest) : Repeats slot false count (item :: rest)

def Slot.Accepts (slot : Slot) (items : List α) : Prop :=
  match slot.multiplicity with
  | .exactlyOne => slot.pattern.Accepts whole fits items
  | .zeroOrOne => items = [] ∨ slot.pattern.Accepts whole fits items
  | .zeroOrMore => ∃ count, slot.Repeats whole fits true count items
  | .oneOrMore => ∃ count, (whole → 0 < count) ∧ slot.Repeats whole fits true count items

def Rule.Accepts (rule : Rule) (items : List α) : Prop :=
  InOrder (Slot.Accepts whole fits) rule items

/-- Repeated matches each of which takes something, so that they alternate with separators. -/
inductive Slot.Alternates (slot : Slot) : (expecting : Bool) → (count : Nat) → List α → Prop where
  | stop (expecting : Bool) : Alternates slot expecting 0 []
  | item {count : Nat} {items rest : List α} (hitems : slot.pattern.Accepts whole fits items)
      (hsome : items ≠ []) (hrest : Alternates slot slot.separator.isNone count rest) :
      Alternates slot true (count + 1) (items ++ rest)
  | separator {kind : TokenKind} {count : Nat} {item : α} {rest : List α}
      (hseparator : slot.separator = Option.some kind) (hitem : fits (.token kind) item)
      (hrest : Alternates slot true count rest) : Alternates slot false count (item :: rest)

def Slot.Fills (slot : Slot) (items : List α) : Prop :=
  match slot.multiplicity with
  | .exactlyOne => slot.pattern.Accepts whole fits items
  | .zeroOrOne => items = [] ∨ slot.pattern.Accepts whole fits items
  | .zeroOrMore => ∃ count, slot.Alternates whole fits true count items
  | .oneOrMore => ∃ count, (whole → 0 < count) ∧ slot.Alternates whole fits true count items

/-- Items fill the slots of a rule if they conform to it and no repeated match is without items. -/
def Rule.Fills (rule : Rule) (items : List α) : Prop := InOrder (Slot.Fills whole fits) rule items

theorem Slot.Accepts.exists_repeats {whole : Prop} {fits : Symbol → α → Prop} {slot : Slot}
    {items : List α} (haccepts : slot.Accepts whole fits items)
    (hmultiplicity : slot.multiplicity.isRepeated = true) :
    ∃ count, (slot.multiplicity = .oneOrMore → whole → 0 < count) ∧
      slot.Repeats whole fits true count items := by
  unfold Slot.Accepts at haccepts
  cases hcase : slot.multiplicity with
  | exactlyOne => simp [hcase, Multiplicity.isRepeated] at hmultiplicity
  | zeroOrOne => simp [hcase, Multiplicity.isRepeated] at hmultiplicity
  | zeroOrMore =>
      simp only [hcase] at haccepts
      obtain ⟨count, hrepeats⟩ := haccepts
      exact ⟨count, fun hone => (nomatch hone), hrepeats⟩
  | oneOrMore =>
      simp only [hcase] at haccepts
      obtain ⟨count, hcount, hrepeats⟩ := haccepts
      exact ⟨count, fun _ => hcount, hrepeats⟩

/-! ## Items for items -/

section

variable {whole} {fits} {others : Symbol → β → Prop} {itemOf : α → β} {items : List α}
  (hfits : ∀ symbol item, fits symbol item → others symbol (itemOf item))

include hfits

theorem Symbol.Accepts.map {symbol : Symbol} (haccepts : symbol.Accepts whole fits items) :
    symbol.Accepts whole others (items.map itemOf) := by
  rcases haccepts with ⟨item, hitem, heq⟩ | ⟨hwhole, hsymbol, heq⟩
  · subst heq
    exact .inl ⟨itemOf item, hfits symbol item hitem, rfl⟩
  · subst heq
    exact .inr ⟨hwhole, hsymbol, rfl⟩

theorem Pattern.Accepts.map {pattern : Pattern} (haccepts : pattern.Accepts whole fits items) :
    pattern.Accepts whole others (items.map itemOf) := by
  cases pattern with
  | sequence symbols =>
      have horder := InOrder.map id itemOf haccepts fun _ _ _ hitems => hitems.map hfits
      rwa [List.map_id] at horder
  | choice symbols =>
      rcases haccepts with ⟨symbol, hsymbol, item, hitem, heq⟩ | ⟨hwhole, heq⟩
      · subst heq
        exact .inl ⟨symbol, hsymbol, itemOf item, hfits symbol item hitem, rfl⟩
      · subst heq
        exact .inr ⟨hwhole, rfl⟩

theorem Slot.Repeats.map {slot : Slot} {expecting : Bool} {count : Nat}
    (hrepeats : slot.Repeats whole fits expecting count items) :
    slot.Repeats whole others expecting count (items.map itemOf) := by
  induction hrepeats with
  | stop expecting => exact .stop expecting
  | item hitems _ ih =>
      rw [List.map_append]
      exact .item (hitems.map hfits) ih
  | separator hseparator hitem _ ih => exact .separator hseparator (hfits _ _ hitem) ih

theorem Slot.Accepts.map {slot : Slot} (haccepts : slot.Accepts whole fits items) :
    slot.Accepts whole others (items.map itemOf) := by
  unfold Slot.Accepts at haccepts ⊢
  split at haccepts
  · exact haccepts.map hfits
  · exact haccepts.imp (fun heq => by rw [heq, List.map_nil]) (·.map hfits)
  · exact haccepts.imp fun _ => (·.map hfits)
  · exact haccepts.imp fun _ => And.imp_right (·.map hfits)

theorem Rule.Accepts.map {rule : Rule} (haccepts : Rule.Accepts whole fits rule items) :
    Rule.Accepts whole others rule (items.map itemOf) := by
  have horder := InOrder.map id itemOf haccepts fun _ _ _ hitems => hitems.map hfits
  rwa [List.map_id] at horder

theorem Slot.Alternates.map {slot : Slot} {expecting : Bool} {count : Nat}
    (halternates : slot.Alternates whole fits expecting count items) :
    slot.Alternates whole others expecting count (items.map itemOf) := by
  induction halternates with
  | stop expecting => exact .stop expecting
  | item hitems hsome _ ih =>
      rw [List.map_append]
      exact .item (hitems.map hfits) (by simpa using hsome) ih
  | separator hseparator hitem _ ih => exact .separator hseparator (hfits _ _ hitem) ih

theorem Slot.Fills.map {slot : Slot} (hfills : slot.Fills whole fits items) :
    slot.Fills whole others (items.map itemOf) := by
  unfold Slot.Fills at hfills ⊢
  split at hfills
  · exact hfills.map hfits
  · exact hfills.imp (fun heq => by rw [heq, List.map_nil]) (·.map hfits)
  · exact hfills.imp fun _ => (·.map hfits)
  · exact hfills.imp fun _ => And.imp_right (·.map hfits)

theorem Rule.Fills.map {rule : Rule} (hfills : Rule.Fills whole fits rule items) :
    Rule.Fills whole others rule (items.map itemOf) := by
  have horder := InOrder.map id itemOf hfills fun _ _ _ hitems => hitems.map hfits
  rwa [List.map_id] at horder

end

section

variable {whole} {fits} {items : List α}

theorem Slot.Alternates.repeats {slot : Slot} {expecting : Bool} {count : Nat}
    (halternates : slot.Alternates whole fits expecting count items) :
    slot.Repeats whole fits expecting count items := by
  induction halternates with
  | stop expecting => exact .stop expecting
  | item hitems _ _ ih => exact .item hitems ih
  | separator hseparator hitem _ ih => exact .separator hseparator hitem ih

theorem Slot.Fills.accepts {slot : Slot} (hfills : slot.Fills whole fits items) :
    slot.Accepts whole fits items := by
  unfold Slot.Fills at hfills
  unfold Slot.Accepts
  split at hfills
  · exact hfills
  · exact hfills
  · exact hfills.imp fun _ => (·.repeats)
  · exact hfills.imp fun _ => And.imp_right (·.repeats)

theorem Rule.Fills.accepts {rule : Rule} (hfills : Rule.Fills whole fits rule items) :
    Rule.Accepts whole fits rule items := by
  have horder := InOrder.map id id hfills fun _ _ _ hitems => by
    rw [List.map_id]
    exact hitems.accepts
  rwa [List.map_id, List.map_id] at horder

end

/-! ## Single items -/

def Slot.Uses (slot : Slot) (item : α) : Prop :=
  (∃ symbol ∈ slot.pattern.symbols, fits symbol item) ∨
    ∃ kind, slot.separator = Option.some kind ∧ fits (.token kind) item

section

variable {whole} {fits} {items : List α} {item : α}

theorem InOrder.exists_mem {accepts : β → List α → Prop} {entries : List β}
    (horder : InOrder accepts entries items) (hitem : item ∈ items) :
    ∃ entry ∈ entries, ∃ stretch, accepts entry stretch ∧ item ∈ stretch := by
  induction horder with
  | nil => cases hitem
  | cons hfirst _ ih =>
      rcases List.mem_append.mp hitem with hmem | hmem
      · exact ⟨_, List.mem_cons_self, _, hfirst, hmem⟩
      · obtain ⟨entry, hentry, hstretch⟩ := ih hmem
        exact ⟨entry, List.mem_cons_of_mem _ hentry, hstretch⟩

theorem Pattern.Accepts.fits_of_mem {pattern : Pattern}
    (haccepts : pattern.Accepts whole fits items) (hitem : item ∈ items) :
    ∃ symbol ∈ pattern.symbols, fits symbol item := by
  cases pattern with
  | sequence symbols =>
      obtain ⟨symbol, hsymbol, stretch, hstretch, hmem⟩ := haccepts.exists_mem hitem
      rcases hstretch with ⟨other, hfits, heq⟩ | ⟨-, -, heq⟩
      · subst heq
        rw [List.mem_singleton.mp hmem]
        exact ⟨symbol, hsymbol, hfits⟩
      · subst heq
        cases hmem
  | choice symbols =>
      rcases haccepts with ⟨symbol, hsymbol, other, hfits, heq⟩ | ⟨-, heq⟩
      · subst heq
        rw [List.mem_singleton.mp hitem]
        exact ⟨symbol, hsymbol, hfits⟩
      · subst heq
        cases hitem

theorem Slot.Repeats.uses_of_mem {slot : Slot} {expecting : Bool} {count : Nat}
    (hrepeats : slot.Repeats whole fits expecting count items) (hitem : item ∈ items) :
    slot.Uses fits item := by
  induction hrepeats with
  | stop => cases hitem
  | item hitems _ ih =>
      rcases List.mem_append.mp hitem with hmem | hmem
      · exact .inl (hitems.fits_of_mem hmem)
      · exact ih hmem
  | separator hseparator hfits _ ih =>
      rcases List.mem_cons.mp hitem with heq | hmem
      · exact .inr ⟨_, hseparator, heq ▸ hfits⟩
      · exact ih hmem

theorem Slot.Accepts.uses_of_mem {slot : Slot} (haccepts : slot.Accepts whole fits items)
    (hitem : item ∈ items) : slot.Uses fits item := by
  unfold Slot.Accepts at haccepts
  split at haccepts
  · exact .inl (haccepts.fits_of_mem hitem)
  · rcases haccepts with hnil | hpattern
    · rw [hnil] at hitem
      cases hitem
    · exact .inl (hpattern.fits_of_mem hitem)
  · obtain ⟨_, hrepeats⟩ := haccepts
    exact hrepeats.uses_of_mem hitem
  · obtain ⟨_, -, hrepeats⟩ := haccepts
    exact hrepeats.uses_of_mem hitem

/-- Each item that a rule accepts is used by one of its slots. -/
theorem Rule.Accepts.uses_of_mem {rule : Rule} (haccepts : Rule.Accepts whole fits rule items)
    (hitem : item ∈ items) : ∃ slot ∈ rule, slot.Uses fits item := by
  obtain ⟨slot, hslot, _, hstretch, hmem⟩ := haccepts.exists_mem hitem
  exact ⟨slot, hslot, hstretch.uses_of_mem hmem⟩

end

/-! ## No items -/

theorem Symbol.not_accepts_nil (symbol : Symbol) : ¬symbol.Accepts True fits [] := by
  intro haccepts
  rcases haccepts with ⟨item, -, heq⟩ | ⟨hwhole, -⟩
  · cases heq
  · exact hwhole trivial

variable {fits}

theorem Pattern.eq_of_accepts_nil {pattern : Pattern} (haccepts : pattern.Accepts True fits []) :
    pattern = .sequence [] := by
  cases pattern with
  | sequence symbols =>
      cases symbols with
      | nil => rfl
      | cons symbol rest =>
          exact absurd (haccepts.of_nil rfl symbol List.mem_cons_self) (symbol.not_accepts_nil fits)
  | choice symbols =>
      rcases haccepts with ⟨_, _, _, _, heq⟩ | ⟨hwhole, -⟩
      · cases heq
      · exact absurd trivial hwhole

theorem Slot.accepts_nil {slot : Slot} (haccepts : slot.Accepts True fits []) :
    slot.multiplicity.allowsZero = true ∨ slot.pattern = .sequence [] := by
  unfold Slot.Accepts at haccepts
  split at haccepts
  · exact .inr (Pattern.eq_of_accepts_nil haccepts)
  · next hmultiplicity => exact .inl (by rw [hmultiplicity]; rfl)
  · next hmultiplicity => exact .inl (by rw [hmultiplicity]; rfl)
  · obtain ⟨count, hcount, hrepeats⟩ := haccepts
    generalize hitems : ([] : List _) = items at hrepeats
    cases hrepeats with
    | stop => exact absurd (hcount trivial) (Nat.lt_irrefl 0)
    | item hfirst _ =>
        obtain ⟨hnil, -⟩ := List.append_eq_nil_iff.mp hitems.symm
        subst hnil
        exact .inr (Pattern.eq_of_accepts_nil hfirst)

end Grammar

end LosslessTree
