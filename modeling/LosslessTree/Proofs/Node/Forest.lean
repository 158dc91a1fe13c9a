import Mathlib.Data.List.Nodup
import Mathlib.Logic.Relation
import LosslessTree.Proofs.Node.Arena

/-!
Arenas whose lists of children agree with their numbers of parents are forests. A stack of nodes
that each give way to their children empties, and lists what is below its nodes once and in
preorder; the parents of a node end, and are the nodes that it is below.
-/

namespace LosslessTree

namespace Arena

def Below (arena : Arena) : Nat → Nat → Prop :=
  Relation.ReflTransGen fun id child => child ∈ arena.children id

inductive Climbs (arena : Arena) : Nat → List Nat → Prop
  | top {id : Nat} (hparent : arena.parent? id = none) : Climbs arena id []
  | step {id parent : Nat} {above : List Nat} (hparent : arena.parent? id = some parent)
      (habove : Climbs arena parent above) : Climbs arena id (parent :: above)

/-- What comes off a stack until it is empty, where each node is replaced by its children. -/
inductive Visits (arena : Arena) : List Nat → List Nat → Prop
  | done : Visits arena [] []
  | step {id : Nat} {stack visited : List Nat}
      (hrest : Visits arena (arena.children id ++ stack) visited) :
      Visits arena (id :: stack) (id :: visited)

/-- Nodes, each with what is below it behind it, one tree after the other. -/
inductive Preorder (arena : Arena) : List Nat → List Nat → Prop
  | nil : Preorder arena [] []
  | cons {id : Nat} {rest below others : List Nat}
      (hbelow : Preorder arena (arena.children id) below) (hrest : Preorder arena rest others) :
      Preorder arena (id :: rest) (id :: below ++ others)

variable {arena : Arena} {id other child parent : Nat} {ids nodes stack visited : List Nat}

theorem below_iff :
    Below arena id other ↔ other = id ∨ ∃ child ∈ arena.children id, Below arena child other := by
  rw [Below, Relation.ReflTransGen.cases_head_iff, eq_comm]

theorem Visits.unique {again : List Nat} (hvisits : Visits arena stack visited)
    (hagain : Visits arena stack again) : again = visited := by
  induction hvisits generalizing again with
  | done =>
      cases hagain
      rfl
  | step _ ih =>
      cases hagain with
      | step hagain => rw [ih hagain]

/-! ## Preorder -/

theorem Preorder.visits (hpreorder : Preorder arena ids nodes)
    (hvisits : Visits arena stack visited) :
    Visits arena (ids ++ stack) (nodes ++ visited) := by
  induction hpreorder generalizing stack visited with
  | nil => exact hvisits
  | cons _ _ hbelow hrest =>
      rw [List.cons_append, List.cons_append, List.cons_append, List.append_assoc]
      exact .step (hbelow (hrest hvisits))

theorem Preorder.mem_iff (hpreorder : Preorder arena ids nodes) :
    other ∈ nodes ↔ ∃ id ∈ ids, Below arena id other := by
  induction hpreorder with
  | nil => simp
  | cons _ _ hbelow hrest =>
      rw [List.cons_append, List.mem_cons, List.mem_append, hbelow, hrest,
        List.exists_mem_cons_iff, ← or_assoc, ← below_iff]

theorem Preorder.exists_of_forall
    (hids : ∀ id ∈ ids, ∃ below, Preorder arena (arena.children id) below) :
    ∃ nodes, Preorder arena ids nodes := by
  induction ids with
  | nil => exact ⟨[], .nil⟩
  | cons id rest ih =>
      obtain ⟨⟨below, hbelow⟩, hrest⟩ := List.forall_mem_cons.mp hids
      obtain ⟨others, hothers⟩ := ih hrest
      exact ⟨_, .cons hbelow hothers⟩

section

variable (hlinked : Linked arena)

include hlinked

theorem Linked.exists_preorder (ids : List Nat) : ∃ nodes, Preorder arena ids nodes := by
  have hbelow (id : Nat) : ∃ below, Preorder arena (arena.children id) below := by
    induction id using Nat.strongRecOn with
    | ind id ih =>
        exact Preorder.exists_of_forall fun child hchild => ih child (hlinked.descends hchild)
  exact Preorder.exists_of_forall fun id _ => hbelow id

theorem Linked.visits_iff : Visits arena ids nodes ↔ Preorder arena ids nodes := by
  obtain ⟨found, hfound⟩ := hlinked.exists_preorder ids
  have hvisits := hfound.visits .done
  rw [List.append_nil, List.append_nil] at hvisits
  constructor
  · intro hnodes
    rwa [hvisits.unique hnodes]
  · intro hnodes
    have hothers := hnodes.visits .done
    rwa [List.append_nil, List.append_nil] at hothers

theorem Linked.below_le (hbelow : Below arena id other) : other ≤ id := by
  induction hbelow with
  | refl => exact Nat.le_refl _
  | tail _ hchild ih => exact Nat.le_trans (Nat.le_of_lt (hlinked.descends hchild)) ih

/-- What is below a node otherwise than by being it, is so by way of its parent. -/
theorem Linked.below_parent_iff (hparent : arena.parent? id = some parent) :
    Below arena other parent ↔ other ≠ id ∧ Below arena other id := by
  have hchild := hlinked.parent.mpr hparent
  constructor
  · intro hbelow
    have hlt := hlinked.descends hchild
    have hle := hlinked.below_le hbelow
    exact ⟨by omega, hbelow.tail hchild⟩
  · rintro ⟨hne, hbelow⟩
    rcases Relation.ReflTransGen.cases_tail hbelow with heq | ⟨middle, hmiddle, hid⟩
    · exact absurd heq.symm hne
    · obtain rfl : middle = parent :=
        Option.some.inj ((hlinked.parent.mp hid).symm.trans hparent)
      exact hmiddle

theorem Linked.below_total {third : Nat} (hfirst : Below arena id third)
    (hsecond : Below arena other third) : Below arena id other ∨ Below arena other id := by
  have hunique : Relator.RightUnique (Function.swap fun id child => child ∈ arena.children id) :=
    fun _ _ _ hleft hright =>
      Option.some.inj ((hlinked.parent.mp hleft).symm.trans (hlinked.parent.mp hright))
  have htotal := Relation.ReflTransGen.total_of_right_unique hunique hfirst.swap hsecond.swap
  exact htotal.symm.imp (fun hbelow => hbelow.swap) fun hbelow => hbelow.swap

def Disjoint (arena : Arena) (ids : List Nat) : Prop :=
  ids.Pairwise fun id other => ∀ node, Below arena id node → ¬Below arena other node

theorem Linked.not_below_sibling (hchild : child ∈ arena.children id)
    (hother : other ∈ arena.children id) (hne : child ≠ other) : ¬Below arena child other := by
  intro hbelow
  have hparent := (hlinked.below_parent_iff (hlinked.parent.mp hother)).mpr ⟨hne, hbelow⟩
  exact Nat.not_lt.mpr (hlinked.below_le hparent) (hlinked.descends hchild)

theorem Linked.disjoint_children (id : Nat) : Disjoint arena (arena.children id) := by
  refine (hlinked.nodup id).imp_of_mem fun hchild hother hne node hbelow hagain => ?_
  rcases hlinked.below_total hbelow hagain with hfirst | hsecond
  · exact hlinked.not_below_sibling hchild hother hne hfirst
  · exact hlinked.not_below_sibling hother hchild (Ne.symm hne) hsecond

theorem Linked.nodup_of_preorder (hpreorder : Preorder arena ids nodes)
    (hids : Disjoint arena ids) : nodes.Nodup := by
  induction hpreorder with
  | nil => exact .nil
  | @cons id rest below others hchildren hrest hbelow hothers =>
      obtain ⟨hid, hrestIds⟩ := List.pairwise_cons.mp hids
      have hown : ∀ node ∈ id :: below, Below arena id node := by
        intro node hnode
        refine below_iff.mpr ((List.mem_cons.mp hnode).imp_right fun hnode => ?_)
        exact hchildren.mem_iff.mp hnode
      refine List.nodup_append.mpr ⟨List.nodup_cons.mpr ⟨?_, ?_⟩, hothers hrestIds, ?_⟩
      · intro hmem
        obtain ⟨child, hchild, hchildBelow⟩ := hchildren.mem_iff.mp hmem
        exact Nat.not_lt.mpr (hlinked.below_le hchildBelow) (hlinked.descends hchild)
      · exact hbelow (hlinked.disjoint_children id)
      · rintro node hnode _ hagain rfl
        obtain ⟨root, hroot, hrootBelow⟩ := hrest.mem_iff.mp hagain
        exact hid root hroot node (hown node hnode) hrootBelow

/-- In preorder, what comes after a node is below it or begins where it has ended. -/
theorem Linked.pairwise_of_preorder (hpreorder : Preorder arena ids nodes) {low high : Nat}
    (hapart : Span.Apart low (ids.map arena.span) high) :
    (∀ node ∈ nodes, low ≤ (arena.span node).start ∧ (arena.span node).stop ≤ high) ∧
      nodes.Pairwise fun node next =>
        Below arena node next ∨ (arena.span node).stop ≤ (arena.span next).start := by
  induction hpreorder generalizing low high with
  | nil => exact ⟨nofun, .nil⟩
  | @cons id rest below others hchildren hrest hbelow hothers =>
      obtain ⟨hlow, hrestApart⟩ := hapart
      obtain ⟨hinside, hbelow⟩ := hbelow (hlinked.apart id)
      obtain ⟨hbehind, hothers⟩ := hothers hrestApart
      have hlength := (arena.span id).start_le_stop
      have hhigh := hrestApart.le
      have hown : ∀ node ∈ id :: below, low ≤ (arena.span node).start ∧
          (arena.span node).stop ≤ (arena.span id).stop := by
        intro node hnode
        rcases List.mem_cons.mp hnode with rfl | hnode
        · exact ⟨hlow, Nat.le_refl _⟩
        · exact ⟨Nat.le_trans hlow (hinside node hnode).1, (hinside node hnode).2⟩
      refine ⟨fun node hnode => ?_, List.pairwise_append.mpr ⟨.cons ?_ hbelow, hothers, ?_⟩⟩
      · rcases List.mem_append.mp hnode with hnode | hnode
        · exact ⟨(hown node hnode).1, Nat.le_trans (hown node hnode).2 hhigh⟩
        · obtain ⟨hstart, hstop⟩ := hbehind node hnode
          exact ⟨by omega, hstop⟩
      · intro node hnode
        exact .inl (below_iff.mpr (.inr (hchildren.mem_iff.mp hnode)))
      · intro node hnode next hnext
        exact .inr (Nat.le_trans (hown node hnode).2 (hbehind next hnext).1)

/-! ## Parents of parents -/

theorem Linked.exists_climbs (id : Nat) : ∃ above, Climbs arena id above := by
  cases hparent : arena.parent? id with
  | none => exact ⟨[], .top hparent⟩
  | some parent =>
      -- Parents have higher numbers than their children, and numbers of nodes are bounded.
      have hchild := hlinked.parent.mpr hparent
      have hlt := hlinked.descends hchild
      have hsize := lt_size_of_mem_children hchild
      obtain ⟨above, habove⟩ := Linked.exists_climbs parent
      exact ⟨parent :: above, .step hparent habove⟩
termination_by arena.size - id
decreasing_by omega

theorem Linked.mem_climbs_iff {above : List Nat} (hclimbs : Climbs arena id above) :
    other ∈ above ↔ other ≠ id ∧ Below arena other id := by
  induction hclimbs with
  | @top id hparent =>
      refine ⟨nofun, fun ⟨hne, hbelow⟩ => ?_⟩
      rcases Relation.ReflTransGen.cases_tail hbelow with heq | ⟨middle, -, hid⟩
      · exact absurd heq.symm hne
      · rw [hlinked.parent.mp hid] at hparent
        cases hparent
  | @step id parent above hparent _ ih =>
      rw [List.mem_cons, ih, ← hlinked.below_parent_iff hparent]
      constructor
      · rintro (rfl | ⟨-, hbelow⟩)
        · exact .refl
        · exact hbelow
      · intro hbelow
        by_cases heq : other = parent
        · exact .inl heq
        · exact .inr ⟨heq, hbelow⟩

end

/-! ## Forests -/

/-- What one expects of trees whose nodes are numbered. -/
structure WellFormed (arena : Arena) : Prop where
  contains {id child : Nat} : child ∈ arena.children id →
    (arena.span id).contains (arena.span child) = true
  ordered (id : Nat) : (arena.children id).Pairwise fun child next =>
    (arena.span child).stop ≤ (arena.span next).start
  parent {id child : Nat} : child ∈ arena.children id ↔ arena.parent? child = some id
  once {id child : Nat} : child ∈ arena.children id → (arena.children id).count child = 1
  descendants (id : Nat) : ∃ below, Visits arena [id] below ∧ Preorder arena [id] below ∧
    below.Nodup ∧ (∀ other, other ∈ below ↔ Below arena id other) ∧
      (below.filter fun node => (arena.children node).isEmpty).Pairwise fun leaf next =>
        (arena.span leaf).stop ≤ (arena.span next).start
  ancestors (id : Nat) : ∃ above, Climbs arena id above ∧ id ∉ above ∧
    ∀ other, other ∈ above ↔
      other ≠ id ∧ ∃ below, Visits arena [other] below ∧ id ∈ below

theorem Linked.leaves_ordered (hlinked : Linked arena) (hpreorder : Preorder arena [id] nodes) :
    (nodes.filter fun node => (arena.children node).isEmpty).Pairwise fun leaf next =>
      (arena.span leaf).stop ≤ (arena.span next).start := by
  have hapart : Span.Apart (arena.span id).start ([id].map arena.span) (arena.span id).stop :=
    ⟨Nat.le_refl _, Nat.le_refl _⟩
  have hordered := (hlinked.pairwise_of_preorder hpreorder hapart).2
  have hnodup := hlinked.nodup_of_preorder hpreorder (List.pairwise_singleton _ id)
  refine List.pairwise_filter.mpr ((hordered.and hnodup).imp fun hpair hleaf _ => ?_)
  obtain ⟨hbelow | hbehind, hne⟩ := hpair
  · rcases below_iff.mp hbelow with heq | ⟨child, hchild, -⟩
    · exact absurd heq.symm hne
    · rw [List.isEmpty_iff.mp hleaf] at hchild
      cases hchild
  · exact hbehind

theorem Linked.wellFormed (hlinked : Linked arena) : WellFormed arena where
  contains {id child} hchild :=
    Span.contains_iff.mpr ((hlinked.apart id).mem (List.mem_map_of_mem hchild))
  ordered id := List.pairwise_map.mp (hlinked.apart id).pairwise
  parent := hlinked.parent
  once {id child} hchild := List.count_eq_one_of_mem (hlinked.nodup id) hchild
  descendants id := by
    obtain ⟨below, hbelow⟩ := hlinked.exists_preorder [id]
    refine ⟨below, hlinked.visits_iff.mpr hbelow, hbelow, ?_, fun other => ?_, ?_⟩
    · exact hlinked.nodup_of_preorder hbelow (List.pairwise_singleton _ id)
    · simp [hbelow.mem_iff]
    · exact hlinked.leaves_ordered hbelow
  ancestors id := by
    obtain ⟨above, habove⟩ := hlinked.exists_climbs id
    refine ⟨above, habove, fun hmem => ?_, fun other => ?_⟩
    · exact absurd rfl ((hlinked.mem_climbs_iff habove).mp hmem).1
    · rw [hlinked.mem_climbs_iff habove]
      refine and_congr_right fun _ => ⟨fun hother => ?_, ?_⟩
      · obtain ⟨below, hbelow⟩ := hlinked.exists_preorder [other]
        exact ⟨below, hlinked.visits_iff.mpr hbelow, by simpa [hbelow.mem_iff] using hother⟩
      · rintro ⟨below, hbelow, hmem⟩
        simpa [(hlinked.visits_iff.mp hbelow).mem_iff] using hmem

end Arena

end LosslessTree
