import LosslessTree.Node.Builder
import LosslessTree.Proofs.Text.Apart

/-!
Nodes under numbers, as an arena keeps them: each has the list of its children's numbers and, apart
from it, the number of its parent. Both are filled in call by call, with local checks only. What
every call keeps (`Linked`) makes the two agree, puts children below their parents in number, and
their ranges in order and apart inside that of the parent.
-/

namespace LosslessTree

/-- What a caller asks for: a leaf, or a parent for nodes that were made before. -/
inductive Builder.Call where
  | token (kind : TokenKind) (span : Span) (text : String)
  | node (kind : NodeKind) (span : Span) (children : List Nat) (payload : Payload)

namespace Builder

def call (builder : Builder) : Call → Except Fault (Nat × Builder)
  | .token kind span text => .ok (builder.token kind span text)
  | .node kind span children payload => builder.node kind span children payload

def run : Builder → List Call → Except Fault Builder
  | builder, [] => .ok builder
  | builder, call :: calls =>
    match builder.call call with
    | .error fault => .error fault
    | .ok (_, builder) => builder.run calls

end Builder

structure Arena.Entry where
  kind : NodeKind
  span : Span
  payload : Payload
  children : List Nat
  parent : Option Nat

structure Arena where
  entries : Array Arena.Entry

namespace Arena

/-- An entry as a node whose children do not matter. -/
def Entry.bare (entry : Entry) : Node := .mk entry.kind entry.span entry.payload []

def empty : Arena := ⟨#[]⟩

def size (arena : Arena) : Nat := arena.entries.size

def children (arena : Arena) (id : Nat) : List Nat :=
  (arena.entries[id]?.map Entry.children).getD []

def parent? (arena : Arena) (id : Nat) : Option Nat := arena.entries[id]?.bind Entry.parent

def span (arena : Arena) (id : Nat) : Span := (arena.entries[id]?.map Entry.span).getD default

def link (arena : Arena) (id : Nat) (entry : Entry) (parent : Nat) : Arena :=
  ⟨arena.entries.setIfInBounds id { entry with parent := some parent }⟩

/-- Makes a number the parent of others, in order, each after its own checks. -/
def adopt (kind : NodeKind) (span : Span) (parent : Nat) :
    (siblingStop : Nat) → Arena → List Nat → Except Fault Arena
  | _, arena, [] => .ok arena
  | siblingStop, arena, id :: rest =>
    match arena.entries[id]? with
    | none => .error .noNode
    | some entry =>
      match Node.checkChild kind span siblingStop entry.bare with
      | .error fault => .error fault
      | .ok () =>
        if entry.parent.isSome then .error (.taken entry.kind)
        else adopt kind span parent entry.span.stop (arena.link id entry parent) rest

def push (arena : Arena) (kind : NodeKind) (span : Span) (payload : Payload)
    (children : List Nat) : Nat × Arena :=
  (arena.size, ⟨arena.entries.push ⟨kind, span, payload, children, none⟩⟩)

def call (arena : Arena) : Builder.Call → Except Fault (Nat × Arena)
  | .token kind span text => .ok (arena.push (.token kind) span (.text text) [])
  | .node kind span children payload =>
    match adopt kind span arena.size span.start arena children with
    | .error fault => .error fault
    | .ok arena => .ok (arena.push kind span payload children)

def run : Arena → List Builder.Call → Except Fault Arena
  | arena, [] => .ok arena
  | arena, call :: calls =>
    match arena.call call with
    | .error fault => .error fault
    | .ok (_, arena) => arena.run calls

/-! ## What single changes do -/

section

variable {arena : Arena} {id other parent : Nat} {entry : Entry}

theorem lt_size (hentry : arena.entries[id]? = some entry) : id < arena.size :=
  (Array.getElem?_eq_some_iff.mp hentry).1

theorem children_of_size_le (hid : arena.size ≤ id) : arena.children id = [] := by
  rw [children, Array.getElem?_eq_none hid]
  rfl

theorem parent?_of_size_le (hid : arena.size ≤ id) : arena.parent? id = none := by
  rw [parent?, Array.getElem?_eq_none hid]
  rfl

theorem lt_size_of_mem_children (hchild : other ∈ arena.children id) : id < arena.size := by
  rcases Nat.lt_or_ge id arena.size with hlt | hle
  · exact hlt
  · rw [children_of_size_le hle] at hchild
    cases hchild

@[simp] theorem size_link : (arena.link id entry parent).size = arena.size :=
  Array.size_setIfInBounds

theorem entries_link (hentry : arena.entries[id]? = some entry) :
    (arena.link id entry parent).entries[other]? =
      if id = other then some { entry with parent := some parent } else arena.entries[other]? := by
  have hlt : id < arena.entries.size := lt_size hentry
  rw [link, Array.getElem?_setIfInBounds, if_pos hlt]

theorem children_link (hentry : arena.entries[id]? = some entry) :
    (arena.link id entry parent).children other = arena.children other := by
  rw [children, children, entries_link hentry]
  split
  · next heq => rw [← heq, hentry]; rfl
  · rfl

theorem span_link (hentry : arena.entries[id]? = some entry) :
    (arena.link id entry parent).span other = arena.span other := by
  rw [span, span, entries_link hentry]
  split
  · next heq => rw [← heq, hentry]; rfl
  · rfl

theorem parent?_link (hentry : arena.entries[id]? = some entry) :
    (arena.link id entry parent).parent? other =
      if id = other then some parent else arena.parent? other := by
  rw [parent?, entries_link hentry]
  split <;> rfl

variable {kind : NodeKind} {outer : Span} {payload : Payload} {ids : List Nat}

theorem size_push : (arena.push kind outer payload ids).2.size = arena.size + 1 :=
  Array.size_push _

theorem children_push : (arena.push kind outer payload ids).2.children id =
    if id = arena.size then ids else arena.children id := by
  rw [children, push, Array.getElem?_push, size]
  split
  · rfl
  · rfl

theorem span_push : (arena.push kind outer payload ids).2.span id =
    if id = arena.size then outer else arena.span id := by
  rw [span, push, Array.getElem?_push, size]
  split
  · rfl
  · rfl

theorem parent?_push : (arena.push kind outer payload ids).2.parent? id = arena.parent? id := by
  rw [parent?, push, Array.getElem?_push]
  split
  · next heq =>
      rw [parent?_of_size_le (Nat.le_of_eq heq.symm)]
      rfl
  · rfl

end

/-! ## What a call keeps -/

/-- Children that got a parent: each had none before, and no other entry has changed. -/
structure Adopts (parent : Nat) (ids : List Nat) (before after : Arena) : Prop where
  size : after.size = before.size
  nodup : ids.Nodup
  free {id : Nat} : id ∈ ids → id < before.size ∧ before.parent? id = none
  parent (id : Nat) : after.parent? id = if id ∈ ids then some parent else before.parent? id
  children (id : Nat) : after.children id = before.children id
  span (id : Nat) : after.span id = before.span id

section

variable {kind : NodeKind} {outer : Span} {parent siblingStop id : Nat} {rest ids : List Nat}
  {before after : Arena} {entry : Entry}

theorem checkChild_eq_ok {child : Node}
    (hcheck : Node.checkChild kind outer siblingStop child = .ok ()) :
    siblingStop ≤ child.span.start ∧ child.span.stop ≤ outer.stop := by
  unfold Node.checkChild at hcheck
  split at hcheck
  · cases hcheck
  · next hcontains =>
      have hinside := Span.contains_iff.mp (by simpa using hcontains)
      split at hcheck
      · cases hcheck
      · next hapart => exact ⟨Nat.not_lt.mp hapart, hinside.2⟩

theorem adopt_cons (hadopt : adopt kind outer parent siblingStop before (id :: rest) = .ok after) :
    ∃ entry, before.entries[id]? = some entry ∧ entry.parent = none ∧
      siblingStop ≤ entry.span.start ∧ entry.span.stop ≤ outer.stop ∧
      adopt kind outer parent entry.span.stop (before.link id entry parent) rest = .ok after := by
  unfold adopt at hadopt
  split at hadopt
  · cases hadopt
  · next entry hentry =>
      split at hadopt
      · cases hadopt
      · next hcheck =>
          split at hadopt
          · cases hadopt
          · next hfree =>
              obtain ⟨hlow, hhigh⟩ := checkChild_eq_ok hcheck
              exact ⟨entry, hentry, by simpa using hfree, hlow, hhigh, hadopt⟩

theorem Adopts.nil (parent : Nat) (arena : Arena) : Adopts parent [] arena arena where
  size := rfl
  nodup := .nil
  free := nofun
  parent _ := rfl
  children _ := rfl
  span _ := rfl

theorem Adopts.cons (hentry : before.entries[id]? = some entry) (hfree : entry.parent = none)
    (hrest : Adopts parent rest (before.link id entry parent) after) :
    Adopts parent (id :: rest) before after := by
  have hmem : id ∉ rest := by
    intro hmem
    have hlinked := (hrest.free hmem).2
    rw [parent?_link hentry, if_pos rfl] at hlinked
    cases hlinked
  constructor
  · rw [hrest.size, size_link]
  · exact List.nodup_cons.mpr ⟨hmem, hrest.nodup⟩
  · intro other hother
    rcases List.mem_cons.mp hother with rfl | hother
    · refine ⟨lt_size hentry, ?_⟩
      rw [parent?, hentry]
      exact hfree
    · obtain ⟨hlt, hnone⟩ := hrest.free hother
      rw [size_link] at hlt
      rw [parent?_link hentry, if_neg (ne_of_mem_of_not_mem hother hmem).symm] at hnone
      exact ⟨hlt, hnone⟩
  · intro other
    rw [hrest.parent, parent?_link hentry]
    by_cases hother : id = other
    · subst hother
      simp
    · simp [hother, Ne.symm hother]
  · intro other
    rw [hrest.children, children_link hentry]
  · intro other
    rw [hrest.span, span_link hentry]

theorem adopts_of_adopt (hstop : siblingStop ≤ outer.stop)
    (hadopt : adopt kind outer parent siblingStop before ids = .ok after) :
    Adopts parent ids before after ∧
      Span.Apart siblingStop (ids.map before.span) outer.stop := by
  induction ids generalizing siblingStop before with
  | nil =>
      cases hadopt
      exact ⟨.nil parent _, hstop⟩
  | cons id rest ih =>
      obtain ⟨entry, hentry, hfree, hlow, hhigh, hadopt⟩ := adopt_cons hadopt
      obtain ⟨hadopts, hrest⟩ := ih hhigh hadopt
      have hspans : rest.map (before.link id entry parent).span = rest.map before.span :=
        List.map_congr_left fun _ _ => span_link hentry
      have hspan : before.span id = entry.span := by
        rw [Arena.span, hentry]
        rfl
      rw [hspans] at hrest
      rw [List.map_cons, hspan]
      exact ⟨.cons hentry hfree hadopts, hlow, hrest⟩

end

/-- Lists of children and numbers of parents say the same. -/
structure Linked (arena : Arena) : Prop where
  nodup (id : Nat) : (arena.children id).Nodup
  parent {id child : Nat} : child ∈ arena.children id ↔ arena.parent? child = some id
  descends {id child : Nat} : child ∈ arena.children id → child < id
  apart (id : Nat) :
    Span.Apart (arena.span id).start ((arena.children id).map arena.span) (arena.span id).stop

theorem linked_empty : Linked empty where
  nodup _ := .nil
  parent := ⟨nofun, nofun⟩
  descends := nofun
  apart _ := Nat.le_refl _

theorem Linked.push {before after : Arena} {kind : NodeKind} {outer : Span} {payload : Payload}
    {ids : List Nat} (hlinked : Linked before) (hadopts : Adopts before.size ids before after)
    (hapart : Span.Apart outer.start (ids.map before.span) outer.stop) :
    Linked (after.push kind outer payload ids).2 := by
  have hchildren (id : Nat) : (after.push kind outer payload ids).2.children id =
      if id = before.size then ids else before.children id := by
    rw [children_push, hadopts.size, hadopts.children]
  have hspan (id : Nat) : (after.push kind outer payload ids).2.span id =
      if id = before.size then outer else before.span id := by
    rw [span_push, hadopts.size, hadopts.span]
  have hparent (id : Nat) : (after.push kind outer payload ids).2.parent? id =
      if id ∈ ids then some before.size else before.parent? id := by
    rw [parent?_push, hadopts.parent]
  -- No child, old or new, has the new number, so that its range is the one it had.
  have hspans (children : List Nat) (hlt : ∀ child ∈ children, child < before.size) :
      children.map (after.push kind outer payload ids).2.span = children.map before.span :=
    List.map_congr_left fun child hchild => by rw [hspan, if_neg (Nat.ne_of_lt (hlt child hchild))]
  constructor
  · intro id
    rw [hchildren]
    split
    · exact hadopts.nodup
    · exact hlinked.nodup id
  · intro id child
    rw [hchildren, hparent]
    by_cases hid : id = before.size
    · subst hid
      rw [if_pos rfl]
      by_cases hmem : child ∈ ids
      · simp [hmem]
      · simp only [hmem, if_false, false_iff]
        intro hold
        have hchild := hlinked.parent.mpr hold
        exact Nat.lt_irrefl _ (lt_size_of_mem_children hchild)
    · rw [if_neg hid, hlinked.parent]
      by_cases hmem : child ∈ ids
      · simp [hmem, (hadopts.free hmem).2, Ne.symm hid]
      · simp [hmem]
  · intro id child
    rw [hchildren]
    split
    · next hid =>
        rw [hid]
        exact fun hmem => (hadopts.free hmem).1
    · exact hlinked.descends
  · intro id
    rw [hchildren, hspan]
    split
    · next hid =>
        rw [hspans ids fun _ hmem => (hadopts.free hmem).1]
        exact hapart
    · next hid =>
        rw [hspans _ fun child hchild => Nat.lt_trans (hlinked.descends hchild)
          (lt_size_of_mem_children hchild)]
        exact hlinked.apart id

theorem Linked.call {arena after : Arena} {call : Builder.Call} {id : Nat}
    (hlinked : Linked arena) (hcall : arena.call call = .ok (id, after)) : Linked after := by
  cases call with
  | token kind span text =>
      cases hcall
      exact hlinked.push (.nil arena.size arena) span.start_le_stop
  | node kind span children payload =>
      unfold Arena.call at hcall
      dsimp only at hcall
      split at hcall
      · cases hcall
      · next adopted hadopt =>
          cases hcall
          obtain ⟨hadopts, hapart⟩ := adopts_of_adopt span.start_le_stop hadopt
          exact hlinked.push hadopts hapart

theorem Linked.run {arena after : Arena} {calls : List Builder.Call} (hlinked : Linked arena)
    (hrun : arena.run calls = .ok after) : Linked after := by
  induction calls generalizing arena with
  | nil =>
      cases hrun
      exact hlinked
  | cons call rest ih =>
      unfold Arena.run at hrun
      split at hrun
      · cases hrun
      · next id next hcall => exact ih (hlinked.call hcall) hrun

end Arena

end LosslessTree
