import LosslessTree.Grammar.Standard
import LosslessTree.Proofs.Grammar.Compile

/-!
How deep brackets nest. A walk over tokens counts the brackets that are open; it comes to an end
where one is closed that is not open, and at a semicolon outside all brackets. The rules of the
standard grammar keep the count: whatever a rule derives can be walked and leaves no bracket open.
-/

namespace LosslessTree

namespace TokenKind

/-- The depth behind a token that stands at a depth, if it may stand there. -/
def depthAfter? (depth : Nat) (kind : TokenKind) : Option Nat :=
  if kind.isOpeningBracket then some (depth + 1)
  else if kind.isClosingBracket then
    match depth with
    | 0 => none
    | depth + 1 => some depth
  else if kind = .semi ∧ depth = 0 then none
  else some depth

def walk? (depth : Nat) (kinds : List TokenKind) : Option Nat := kinds.foldlM depthAfter? depth

@[simp] theorem walk?_nil (depth : Nat) : walk? depth [] = some depth := rfl

theorem walk?_cons (depth : Nat) (kind : TokenKind) (kinds : List TokenKind) :
    walk? depth (kind :: kinds) = (depthAfter? depth kind).bind (walk? · kinds) := rfl

theorem walk?_append (depth : Nat) (kinds more : List TokenKind) :
    walk? depth (kinds ++ more) = (walk? depth kinds).bind (walk? · more) :=
  List.foldlM_append

theorem walk?_append_of_some {depth middle : Nat} {kinds : List TokenKind}
    (hkinds : walk? depth kinds = some middle) (more : List TokenKind) :
    walk? depth (kinds ++ more) = walk? middle more := by
  rw [walk?_append, hkinds, Option.bind_some]

theorem exists_walk?_of_append {depth stop : Nat} {kinds more : List TokenKind}
    (hwalk : walk? depth (kinds ++ more) = some stop) :
    ∃ middle, walk? depth kinds = some middle ∧ walk? middle more = some stop := by
  rw [walk?_append] at hwalk
  exact Option.bind_eq_some_iff.mp hwalk

/-- Further brackets around do no harm. -/
theorem depthAfter?_add {depth after : Nat} {kind : TokenKind}
    (hkind : depthAfter? depth kind = some after) (outer : Nat) :
    depthAfter? (outer + depth) kind = some (outer + after) := by
  unfold depthAfter? at hkind ⊢
  split at hkind
  · next hopening =>
      rw [if_pos hopening, ← Option.some.inj hkind]
      rfl
  · next hopening =>
      rw [if_neg hopening]
      split at hkind
      · next hclosing =>
          rw [if_pos hclosing]
          cases depth with
          | zero => cases hkind
          | succ depth => exact congrArg (some <| outer + ·) (Option.some.inj hkind)
      · next hclosing =>
          rw [if_neg hclosing]
          split at hkind
          · cases hkind
          · next hsemi =>
              rw [if_neg fun h => hsemi ⟨h.1, by omega⟩, Option.some.inj hkind]

theorem walk?_add {depth after : Nat} {kinds : List TokenKind}
    (hwalk : walk? depth kinds = some after) (outer : Nat) :
    walk? (outer + depth) kinds = some (outer + after) := by
  induction kinds generalizing depth with
  | nil => exact congrArg (some <| outer + ·) (Option.some.inj hwalk)
  | cons kind rest ih =>
      rw [walk?_cons] at hwalk ⊢
      obtain ⟨middle, hkind, hrest⟩ := Option.bind_eq_some_iff.mp hwalk
      rw [depthAfter?_add hkind, Option.bind_some, ih hrest]

theorem walk?_of_balanced {kinds : List TokenKind} (hkinds : walk? 0 kinds = some 0)
    (depth : Nat) : walk? depth kinds = some depth := walk?_add hkinds depth

theorem walk?_semi {depth after : Nat} {kinds : List TokenKind}
    (hwalk : walk? depth (.semi :: kinds) = some after) :
    0 < depth ∧ walk? depth kinds = some after := by
  cases depth with
  | zero => cases hwalk
  | succ depth => exact ⟨Nat.succ_pos depth, hwalk⟩

end TokenKind

namespace Grammar

open TokenKind

/-- The depth behind a symbol. Below a node, brackets are taken to come in pairs. -/
def Symbol.depthAfter? (depth : Nat) : Symbol → Option Nat
  | token kind => kind.depthAfter? depth
  | _ => some depth

def Slot.isNeutral (depth : Nat) (slot : Slot) : Bool :=
  slot.pattern.symbols.all (·.depthAfter? depth == .some depth)
    && slot.separator.all (·.depthAfter? depth == .some depth)

/-- The depth behind a slot. Only a sequence that is there once may change it. -/
def Slot.depthAfter? (depth : Nat) (slot : Slot) : Option Nat :=
  match slot.multiplicity, slot.pattern with
  | .exactlyOne, .sequence symbols => symbols.foldlM Symbol.depthAfter? depth
  | _, _ => if slot.isNeutral depth then .some depth else none

def Rule.depthAfter? (depth : Nat) (rule : Rule) : Option Nat :=
  rule.foldlM Slot.depthAfter? depth

/-- The rules of the standard grammar open and close brackets in pairs. -/
theorem standard_balanced : ∀ entry ∈ Standard.rules, Rule.depthAfter? 0 entry.2 = some 0 := by
  decide +kernel

section

variable {α β : Type} {fits : Symbol → α → Prop} {P : α → Prop} {kindsOf : α → List TokenKind}
  {items : List α} {depth after : Nat}

theorem walk?_flatMap_of_neutral
    (hitems : ∀ item ∈ items, walk? depth (kindsOf item) = some depth) :
    walk? depth (items.flatMap kindsOf) = some depth := by
  induction items with
  | nil => rfl
  | cons item rest ih =>
      obtain ⟨hitem, hrest⟩ := List.forall_mem_cons.mp hitems
      rw [List.flatMap_cons, walk?_append_of_some hitem, ih hrest]

theorem walk?_inOrder {accepts : β → List α → Prop} {step : Nat → β → Option Nat}
    (hstep : ∀ entry items depth after, (∀ item ∈ items, P item) → accepts entry items →
      step depth entry = some after → walk? depth (items.flatMap kindsOf) = some after)
    {entries : List β} (horder : InOrder accepts entries items) (hitems : ∀ item ∈ items, P item)
    (hentries : entries.foldlM step depth = some after) :
    walk? depth (items.flatMap kindsOf) = some after := by
  induction horder generalizing depth with
  | nil => exact hentries
  | cons hentry _ ih =>
      obtain ⟨hfirst, hrest⟩ := List.forall_mem_append.mp hitems
      rw [List.foldlM_cons] at hentries
      obtain ⟨middle, hmiddle, hmore⟩ := Option.bind_eq_some_iff.mp hentries
      rw [List.flatMap_append, walk?_append_of_some (hstep _ _ _ _ hfirst hentry hmiddle), ih hrest hmore]

variable (hfits : ∀ symbol item, P item → fits symbol item →
  ∀ {depth after : Nat}, symbol.depthAfter? depth = some after →
    walk? depth (kindsOf item) = some after)

include hfits

theorem walk?_of_uses {slot : Slot} (hneutral : slot.isNeutral depth = true) {item : α}
    (hitem : P item) (huses : slot.Uses fits item) :
    walk? depth (kindsOf item) = some depth := by
  simp only [Slot.isNeutral, Bool.and_eq_true, List.all_eq_true, beq_iff_eq] at hneutral
  obtain ⟨hsymbols, hseparator⟩ := hneutral
  rcases huses with ⟨symbol, hsymbol, hfit⟩ | ⟨kind, hkind, hfit⟩
  · exact hfits _ _ hitem hfit (hsymbols symbol hsymbol)
  · rw [hkind] at hseparator
    exact hfits _ _ hitem hfit (beq_iff_eq.mp hseparator)

theorem walk?_of_slot {slot : Slot} (hitems : ∀ item ∈ items, P item)
    (haccepts : slot.Accepts True fits items)
    (hdepth : slot.depthAfter? depth = some after) :
    walk? depth (items.flatMap kindsOf) = some after := by
  unfold Slot.depthAfter? at hdepth
  split at hdepth
  · next symbols hmultiplicity hpattern =>
      simp only [Slot.Accepts, hmultiplicity, hpattern] at haccepts
      refine walk?_inOrder (fun _ _ _ _ hitems hsymbol hstep => ?_) haccepts hitems hdepth
      rcases hsymbol with ⟨item, hitem, rfl⟩ | ⟨hwhole, -⟩
      · rw [List.flatMap_singleton]
        exact hfits _ _ (hitems item List.mem_cons_self) hitem hstep
      · exact absurd trivial hwhole
  · split at hdepth
    · next hneutral =>
        rw [← Option.some.inj hdepth]
        exact walk?_flatMap_of_neutral fun item hitem =>
          walk?_of_uses hfits hneutral (hitems item hitem) (haccepts.uses_of_mem hitem)
    · cases hdepth

theorem walk?_of_rule {rule : Rule} (hitems : ∀ item ∈ items, P item)
    (haccepts : Rule.Accepts True fits rule items) (hdepth : rule.depthAfter? depth = some after) :
    walk? depth (items.flatMap kindsOf) = some after := by
  refine walk?_inOrder ?_ haccepts hitems hdepth
  exact fun _ _ _ _ => walk?_of_slot hfits

end

/-! ## Kinds without a token -/

/-- Whether a symbol is neither a token nor a node outside some kinds. -/
def Symbol.avoids (token : TokenKind) (kinds : List NodeKind) : Symbol → Bool
  | .token kind => kind != token
  | .word _ => token != .varId
  | .node kind => kinds.contains kind

def Slot.avoids (token : TokenKind) (kinds : List NodeKind) (slot : Slot) : Bool :=
  slot.pattern.symbols.all (·.avoids token kinds) && slot.separator != Option.some token

def Rules.avoid (rules : Rules) (token : TokenKind) (kinds : List NodeKind) : Bool :=
  rules.all fun entry => !kinds.contains entry.1 || entry.2.all (·.avoids token kinds)

theorem Rules.avoids_slot {rules : Rules} {token : TokenKind} {kinds : List NodeKind}
    (havoid : rules.avoid token kinds = true) {kind : NodeKind} {rule : Rule}
    (hrule : (kind, rule) ∈ rules) (hkind : kind ∈ kinds) {slot : Slot} (hslot : slot ∈ rule) :
    slot.avoids token kinds = true := by
  have hentry := List.all_eq_true.mp havoid _ hrule
  have hcontains : kinds.contains kind = true := List.contains_iff_mem.mpr hkind
  rw [hcontains, Bool.not_true, Bool.false_or] at hentry
  exact List.all_eq_true.mp hentry slot hslot

/-! ## Blocks and modules -/

def Rule.block (symbols : List Symbol) : Rule :=
  [.all [.token .leftBrace], .many symbols, .all [.token .rightBrace]]

structure IsBlock (grammar : Grammar) (kind : NodeKind) (opening items closing : Place) : Prop where
  production : ∃ production, grammar.production? kind = some production ∧
    production.places = [opening, items, closing]
  opening : opening.slot = .all [.token .leftBrace]
  items : ∃ symbols, items.slot = .many symbols
  closing : closing.slot = .all [.token .rightBrace]

theorem IsBlock.has {grammar : Grammar} {kind : NodeKind} {opening items closing : Place}
    (hblock : grammar.IsBlock kind opening items closing) :
    grammar.Has opening ∧ grammar.Has items ∧ grammar.Has closing := by
  obtain ⟨production, hproduction, hplaces⟩ := hblock.production
  have hmem : ∀ place ∈ [opening, items, closing], grammar.Has place := fun place hplace =>
    ⟨kind, production, hproduction, hplaces ▸ hplace⟩
  simpa using hmem

def itemsOf (rules : Rules) (symbols : List Symbol) : Place :=
  placeOf (Rules.analyse rules) (.many symbols) [.all [.token .rightBrace]]

theorem exists_isBlock {rules : Rules} {grammar : Grammar} (hbuild : build rules = .ok grammar)
    {kind : NodeKind} {symbols : List Symbol} (hrule : (kind, Rule.block symbols) ∈ rules) :
    ∃ opening closing, grammar.IsBlock kind opening (itemsOf rules symbols) closing :=
  ⟨_, _, ⟨_, production?_of_rule hbuild hrule, rfl⟩, rfl, ⟨symbols, rfl⟩, rfl⟩

/-- The production of a kind ends with a place for one node, of which there is one part. -/
structure EndsWith (grammar : Grammar) (start : NodeKind) (front : List Place) (last : Place)
    (part : Part) (kind : NodeKind) : Prop where
  production : ∃ production, grammar.production? start = some production ∧
    production.places = front ++ [last]
  slot : last.slot = .all [.node kind]
  parts : last.parts = [part]
  symbol : part.symbol = .node kind

namespace EndsWith

variable {grammar : Grammar} {start kind : NodeKind} {front : List Place} {last : Place}
  {part : Part} (hends : grammar.EndsWith start front last part kind)

include hends

theorem has : (∀ place ∈ front, grammar.Has place) ∧ grammar.Has last := by
  obtain ⟨production, hproduction, hplaces⟩ := hends.production
  have hmem : ∀ place ∈ front ++ [last], grammar.Has place := fun place hplace =>
    ⟨start, production, hproduction, hplaces ▸ hplace⟩
  obtain ⟨hfront, hlast⟩ := List.forall_mem_append.mp hmem
  exact ⟨hfront, hlast last List.mem_cons_self⟩

theorem mem_parts : part ∈ grammar.parts :=
  hends.has.2.parts part (hends.parts ▸ List.mem_cons_self)

theorem mentions : grammar.Mentions kind := ⟨part, hends.mem_parts, hends.symbol⟩

end EndsWith

theorem placesOf_concat (table : FactTable) (rule : Rule) (slot : Slot) :
    ∃ front, placesOf table (rule ++ [slot]) = front ++ [placeOf table slot []] := by
  induction rule with
  | nil => exact ⟨[], rfl⟩
  | cons first rest ih =>
      obtain ⟨front, hfront⟩ := ih
      exact ⟨placeOf table first (rest ++ [slot]) :: front, by
        rw [List.cons_append, placesOf_cons, hfront, List.cons_append]⟩

theorem exists_endsWith {rules : Rules} {grammar : Grammar} (hbuild : build rules = .ok grammar)
    {start kind : NodeKind} {rule : Rule} (hrule : (start, rule ++ [.all [.node kind]]) ∈ rules) :
    ∃ front last part, grammar.EndsWith start front last part kind ∧
      last.follow = .empty ∧ part.follow = .empty := by
  obtain ⟨front, hfront⟩ := placesOf_concat (Rules.analyse rules) rule (.all [.node kind])
  exact ⟨front, placeOf (Rules.analyse rules) (.all [.node kind]) [],
    partOf (Rules.analyse rules) .empty (.node kind),
    ⟨⟨_, production?_of_rule hbuild hrule, hfront⟩, rfl, rfl, rfl⟩, rfl, rfl⟩

def Standard.moduleRule : Rule :=
  [.many [Standard.node .pragma], .allOrNone [Standard.node .moduleDeclaration],
    .all [Standard.node .body]]

theorem standard_module : (.construct .module, Standard.moduleRule) ∈ Standard.rules :=
  List.mem_of_getElem? (show Standard.rules[0]? = _ from rfl)

/-- What may stand in front of the body of a module, with all that is below. -/
def Standard.heading : List NodeKind :=
  [.construct .pragma, .construct .moduleDeclaration, .construct .exportList,
    .construct .exportItem, .construct .importMembers, .construct .qualifiedName,
    .construct .parenOperator, .construct .dotDot]

theorem standard_heading_avoids_semi : Standard.rules.avoid .semi Standard.heading = true := by
  decide +kernel

/-- The body of a module is a block whose items leave the depth of the block as it is. -/
theorem standard_body : ∃ symbols, (.construct .body, Rule.block symbols) ∈ Standard.rules ∧
    (Slot.many symbols).isNeutral 1 = true :=
  ⟨_, List.mem_of_getElem? (show Standard.rules[4]? = _ from rfl), by decide +kernel⟩

section

variable {α : Type} {fits : Symbol → α → Prop} {items : List α}

theorem item_of_all {symbol : Symbol}
    (haccepts : (Slot.all [symbol]).Accepts True fits items) :
    ∃ item, items = [item] ∧ fits symbol item := by
  cases haccepts with
  | cons hsymbol hrest =>
      cases hrest
      rcases hsymbol with ⟨item, hitem, rfl⟩ | ⟨hwhole, -⟩
      · exact ⟨item, rfl, hitem⟩
      · exact absurd trivial hwhole

/-- Where a rule ends with a symbol, so do the items, and those in front are of its other slots. -/
theorem accepts_last {front : Rule} {symbol : Symbol}
    (haccepts : Rule.Accepts True fits (front ++ [.all [symbol]]) items) :
    ∃ before last, items = before ++ [last] ∧ fits symbol last ∧
      ∀ item ∈ before, ∃ slot ∈ front, slot.Uses fits item := by
  induction front generalizing items with
  | nil =>
      cases haccepts with
      | cons hlast hnone =>
          cases hnone
          obtain ⟨last, rfl, hfits⟩ := item_of_all hlast
          exact ⟨[], last, rfl, hfits, fun _ hitem => absurd hitem List.not_mem_nil⟩
  | cons slot rest ih =>
      cases haccepts with
      | @cons _ _ stretch _ hslot hrest =>
          obtain ⟨before, last, rfl, hfits, hbefore⟩ := ih hrest
          refine ⟨stretch ++ before, last, (List.append_assoc _ _ _).symm, hfits, ?_⟩
          refine List.forall_mem_append.mpr ⟨fun item hitem => ?_, fun item hitem => ?_⟩
          · exact ⟨slot, List.mem_cons_self, hslot.uses_of_mem hitem⟩
          · obtain ⟨other, hother, huses⟩ := hbefore item hitem
            exact ⟨other, List.mem_cons_of_mem _ hother, huses⟩

theorem accepts_block {symbols : List Symbol}
    (haccepts : Rule.Accepts True fits (Rule.block symbols) items) :
    ∃ first between last, items = first :: between ++ [last] ∧ fits (.token .leftBrace) first ∧
      fits (.token .rightBrace) last ∧ ∀ item ∈ between, (Slot.many symbols).Uses fits item := by
  cases haccepts with
  | cons hopen hrest =>
      obtain ⟨first, rfl, hfirst⟩ := item_of_all hopen
      have hrest : Rule.Accepts True fits ([.many symbols] ++ [.all [.token .rightBrace]]) _ := hrest
      obtain ⟨between, last, rfl, hlast, hbetween⟩ := accepts_last hrest
      refine ⟨first, between, last, rfl, hfirst, hlast, fun item hitem => ?_⟩
      obtain ⟨slot, hslot, huses⟩ := hbetween item hitem
      rwa [← List.mem_singleton.mp hslot]

theorem accepts_module (haccepts : Rule.Accepts True fits Standard.moduleRule items) :
    ∃ heading last, items = heading ++ [last] ∧ fits (Standard.node .body) last ∧
      ∀ item ∈ heading, ∃ kind ∈ Standard.heading, fits (.node kind) item := by
  have haccepts : Rule.Accepts True fits ([.many [Standard.node .pragma],
      .allOrNone [Standard.node .moduleDeclaration]] ++ [.all [Standard.node .body]]) items := haccepts
  obtain ⟨heading, last, heq, hlast, hheading⟩ := accepts_last haccepts
  refine ⟨heading, last, heq, hlast, fun item hitem => ?_⟩
  obtain ⟨slot, hslot, ⟨symbol, hsymbol, hfits⟩ | ⟨kind, hkind, -⟩⟩ := hheading item hitem
  · simp only [List.mem_cons, List.not_mem_nil, or_false] at hslot
    rcases hslot with rfl | rfl <;> obtain rfl := List.mem_singleton.mp hsymbol
    · exact ⟨_, List.mem_cons_self, hfits⟩
    · exact ⟨_, List.mem_cons_of_mem _ List.mem_cons_self, hfits⟩
  · simp only [List.mem_cons, List.not_mem_nil, or_false] at hslot
    rcases hslot with rfl | rfl <;> cases hkind

end

end Grammar

end LosslessTree
