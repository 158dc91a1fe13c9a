import Mathlib.Algebra.Order.BigOperators.Group.List
import Mathlib.Algebra.Order.Ring.Nat
import Mathlib.Data.List.Perm.Subperm
import LosslessTree.Proofs.Grammar.Vocabulary

/-!
The analysis ends where a further round adds nothing, so that what a kind is known of includes the
facts of its rule. Facts only grow, and there are more rounds than facts: token kinds and words of
the grammar for each rule, and emptiness.
-/

namespace LosslessTree

/-! ## Unions grow -/

theorem KindSet.union_grows (left right : KindSet) :
    left.union right = left ∨ left.toList.length < (left.union right).toList.length := by
  have hsublist : List.Sublist left.toList (left.union right).toList := by
    apply List.monotone_filter_right
    intro kind hkind
    simp [hkind]
  rcases Nat.lt_or_ge left.toList.length (left.union right).toList.length with hlt | hge
  · exact .inr hlt
  · have heq := hsublist.eq_of_length_le hge
    refine .inl (ext_contains fun kind => ?_)
    rw [Bool.eq_iff_iff, ← mem_toList, ← mem_toList, heq]

namespace Lookahead

theorem addWord_grows (words : List String) (word : String) :
    addWord words word = words ∨ words.length < (addWord words word).length := by
  unfold addWord
  split
  · exact .inl rfl
  · right
    simp

theorem foldl_addWord_grows (words more : List String) :
    more.foldl addWord words = words ∨ words.length < (more.foldl addWord words).length := by
  induction more generalizing words with
  | nil => exact .inl rfl
  | cons word rest ih =>
      rw [List.foldl_cons]
      rcases addWord_grows words word with heq | hlt
      · rw [heq]
        exact ih words
      · right
        rcases ih (addWord words word) with heq | hmore
        · rwa [heq]
        · exact Nat.lt_trans hlt hmore

theorem nodup_addWord {words : List String} (hnodup : words.Nodup) (word : String) :
    (addWord words word).Nodup := by
  unfold addWord
  split
  · exact hnodup
  · next hword =>
      rw [List.nodup_append]
      refine ⟨hnodup, List.nodup_singleton word, fun other hother last hlast heq => ?_⟩
      rw [List.mem_singleton.mp hlast] at heq
      exact hword (by simpa [heq] using hother)

def weight (set : Lookahead) : Nat := set.kinds.toList.length + set.words.length

theorem union_grows (left right : Lookahead) :
    left.union right = left ∨ left.weight < (left.union right).weight := by
  unfold union weight
  rcases KindSet.union_grows left.kinds right.kinds with hkinds | hkinds
  · rcases foldl_addWord_grows left.words right.words with hwords | hwords
    · left
      rw [hkinds, hwords]
    · right
      rw [hkinds]
      exact Nat.add_lt_add_left hwords _
  · right
    refine Nat.add_lt_add_of_lt_of_le hkinds ?_
    rcases foldl_addWord_grows left.words right.words with hwords | hwords
    · rw [hwords]
    · exact Nat.le_of_lt hwords

end Lookahead

namespace Grammar

namespace Facts

def weight (facts : Facts) : Nat := facts.first.weight + facts.nullable.toNat

theorem join_grows (left right : Facts) :
    left.join right = left ∨ left.weight < (left.join right).weight := by
  obtain ⟨first, nullable⟩ := left
  unfold join weight
  rcases Lookahead.union_grows first right.first with heq | hlt
  · rw [heq]
    cases nullable with
    | true => exact .inl rfl
    | false => cases right.nullable with
      | true => exact .inr (Nat.lt_succ_self _)
      | false => exact .inl rfl
  · right
    refine Nat.add_lt_add_of_lt_of_le hlt ?_
    cases nullable with
    | true => exact Nat.le_refl _
    | false => exact Nat.zero_le _

end Facts

/-! ## Rounds grow -/

namespace FactTable

variable {rules : Rules}

def weight (table : FactTable) : Nat := (table.map (·.2.weight)).sum

theorem add_grows (kind : NodeKind) (more : Facts) (table : FactTable) :
    table.add kind more = table ∨ table.weight < (table.add kind more).weight := by
  induction table with
  | nil => exact .inl rfl
  | cons entry rest ih =>
      have hadd : add kind more (entry :: rest) =
          (if entry.1 = kind then (entry.1, entry.2.join more) else entry) ::
            add kind more rest := rfl
      have hentry : (if entry.1 = kind then (entry.1, entry.2.join more) else entry) = entry ∨
          entry.2.weight <
            (if entry.1 = kind then (entry.1, entry.2.join more) else entry).2.weight := by
        split
        · rcases entry.2.join_grows more with heq | hlt
          · left
            rw [heq]
          · exact .inr hlt
        · exact .inl rfl
      rw [hadd]
      simp only [weight, List.map_cons, List.sum_cons] at ih ⊢
      rcases hentry with heq | hlt
      · rw [heq]
        exact ih.imp (congrArg _) (Nat.add_lt_add_left · _)
      · right
        refine Nat.add_lt_add_of_lt_of_le hlt ?_
        rcases ih with heq | hmore
        · rw [heq]
        · exact Nat.le_of_lt hmore

/-- A further round would add nothing. -/
def Stable (rules : Rules) (table : FactTable) : Prop :=
  ∀ entry ∈ rules, table.add entry.1 (table.ofRule entry.2) = table

theorem round_grows (rules : Rules) (table : FactTable) :
    (Stable rules table ∧ round rules table = table) ∨
      table.weight < (round rules table).weight := by
  induction rules generalizing table with
  | nil => exact .inl ⟨fun _ hentry => absurd hentry List.not_mem_nil, rfl⟩
  | cons entry rest ih =>
      have hround : round (entry :: rest) table =
          round rest (table.add entry.1 (table.ofRule entry.2)) := rfl
      rw [hround]
      rcases add_grows entry.1 (table.ofRule entry.2) table with heq | hlt
      · rw [heq]
        refine (ih table).imp_left fun hstable => ?_
        exact ⟨List.forall_mem_cons.mpr ⟨heq, hstable.1⟩, hstable.2⟩
      · right
        rcases ih (table.add entry.1 (table.ofRule entry.2)) with ⟨-, heq⟩ | hmore
        · rwa [heq]
        · exact Nat.lt_trans hlt hmore

/-- With more rounds than weight to gain, the rounds end at a stable table. -/
theorem solve_stable {I : FactTable → Prop} {bound : Nat}
    (hstep : ∀ table entry, entry ∈ rules → I table →
      I (table.add entry.1 (table.ofRule entry.2)))
    (hbound : ∀ table, I table → table.weight ≤ bound) {rounds : Nat} {table : FactTable}
    (htable : I table) (hrounds : bound < table.weight + rounds) :
    Stable rules (solve rules rounds table) := by
  -- A round that changes something takes one from the rounds and adds one to the weight.
  induction rounds generalizing table with
  | zero => exact absurd (hbound table htable) (Nat.not_le.mpr hrounds)
  | succ rounds ih =>
      unfold solve
      dsimp only
      rcases round_grows rules table with ⟨hstable, heq⟩ | hlt
      · rwa [if_pos heq]
      · have hne : round rules table ≠ table := fun heq => by
          rw [heq] at hlt
          exact Nat.lt_irrefl _ hlt
        rw [if_neg hne]
        refine ih ?_ (by omega)
        exact List.foldlRecOn rules _ htable fun table htable entry hentry =>
          hstep table entry hentry htable

end FactTable

/-! ## All rounds are enough -/

theorem Rules.inherited_nodup (rules : Rules) :
    Rules.Inherited rules fun set => set.words.Nodup where
  empty := List.nodup_nil
  union hleft _ := List.foldlRecOn (motive := List.Nodup) _ _ hleft fun _ hwords _ _ =>
    Lookahead.nodup_addWord hwords _
  kind _ := List.nodup_nil
  word _ := List.nodup_singleton _

namespace FactTable

variable {rules : Rules}

/-- A table of the rules, with no words twice and none but those of the rules. -/
structure Bounded (rules : Rules) (table : FactTable) : Prop where
  length : table.length = rules.length
  nodup : ∀ entry ∈ table, entry.2.first.words.Nodup
  within : ∀ entry ∈ table, entry.2.first.Within (Rules.words rules)

theorem facts_of_entries {P : Facts → Prop} (hnone : P .none) {table : FactTable}
    (hentries : ∀ entry ∈ table, P entry.2) (kind : NodeKind) : P (table.facts kind) := by
  unfold facts
  cases hlookup : table.lookup kind with
  | none => exact hnone
  | some facts =>
      obtain ⟨before, after, heq, -⟩ := List.lookup_eq_some_iff.mp hlookup
      exact hentries (kind, facts) (by simp [heq])

theorem bounded_initial (rules : Rules) :
    Bounded rules (rules.map fun entry => (entry.1, Facts.none)) where
  length := List.length_map _
  nodup entry hentry := by
    obtain ⟨_, -, rfl⟩ := List.mem_map.mp hentry
    exact List.nodup_nil
  within entry hentry := by
    obtain ⟨_, -, rfl⟩ := List.mem_map.mp hentry
    exact .ofKinds .empty

theorem entries_add {P : Lookahead → Prop} (hP : Rules.Inherited rules P) {table : FactTable}
    (htable : ∀ entry ∈ table, P entry.2.first) {entry : NodeKind × Rule}
    (hentry : entry ∈ rules) :
    ∀ other ∈ table.add entry.1 (table.ofRule entry.2), P other.2.first := by
  have hfacts := facts_of_entries (P := fun facts => P facts.first) hP.empty htable
  intro other hother
  obtain ⟨old, hold, rfl⟩ := List.mem_map.mp hother
  split
  · exact hP.union (htable old hold) (hP.ofRule hfacts hentry)
  · exact htable old hold

theorem Bounded.add {table : FactTable} (hbounded : Bounded rules table) {entry : NodeKind × Rule}
    (hentry : entry ∈ rules) : Bounded rules (table.add entry.1 (table.ofRule entry.2)) where
  length := (List.length_map _).trans hbounded.length
  nodup := entries_add (Rules.inherited_nodup rules) hbounded.nodup hentry
  within := entries_add (Rules.inherited_within rules) hbounded.within hentry

theorem Bounded.weight_le {table : FactTable} (hbounded : Bounded rules table) :
    table.weight ≤ rules.length * (59 + (Rules.symbols rules).length) := by
  have hentries : ∀ weight ∈ table.map (·.2.weight),
      weight ≤ 59 + (Rules.symbols rules).length := by
    intro weight hweight
    obtain ⟨entry, hmem, rfl⟩ := List.mem_map.mp hweight
    have hkinds : entry.2.first.kinds.toList.length ≤ 58 := List.length_filter_le _ _
    have hwords : entry.2.first.words.length ≤ (Rules.words rules).length :=
      (List.subperm_of_subset (hbounded.nodup entry hmem) (hbounded.within entry hmem)).length_le
    have hsymbols : (Rules.words rules).length ≤ (Rules.symbols rules).length :=
      List.length_filterMap_le _ _
    have hnullable := Bool.toNat_le entry.2.nullable
    simp only [Facts.weight, Lookahead.weight]
    omega
  have hsum := List.sum_le_card_nsmul _ _ hentries
  rwa [List.length_map, hbounded.length, Nat.nsmul_eq_mul] at hsum

end FactTable

open FactTable

variable {rules : Rules} {kind : NodeKind} {rule : Rule}

theorem analyse_stable (rules : Rules) : Stable rules (Rules.analyse rules) := by
  refine solve_stable (fun _ _ hentry hbounded => Bounded.add hbounded hentry)
    (fun _ hbounded => hbounded.weight_le) (bounded_initial rules) ?_
  unfold Rules.roundBound
  omega

theorem analyse_absorbs (hrule : (kind, rule) ∈ rules) :
    ((Rules.analyse rules).facts kind).join ((Rules.analyse rules).ofRule rule) =
      (Rules.analyse rules).facts kind := by
  have hlookup : ((Rules.analyse rules).lookup kind).isSome = true :=
    solve_induction (I := fun table => (List.lookup kind table).isSome = true)
      (fun _ _ _ hkind => by rwa [lookup_add, Option.isSome_map]) _ (lookup_initial hrule)
  obtain ⟨facts, hfacts⟩ := Option.isSome_iff_exists.mp hlookup
  have hstable := congrArg (List.lookup kind) (analyse_stable rules (kind, rule) hrule)
  rw [lookup_add, hfacts, Option.map_some, if_pos rfl] at hstable
  rw [FactTable.facts, hfacts, Option.getD_some]
  exact Option.some.inj hstable

theorem analyse_offers (hrule : (kind, rule) ∈ rules) {token : Token}
    (hadmits : ((Rules.analyse rules).ofRule rule).first.admits token = true) :
    ((Rules.analyse rules).facts kind).first.admits token = true := by
  rw [← analyse_absorbs hrule, Facts.join, Lookahead.admits_union, hadmits, Bool.or_true]

theorem analyse_empties (hrule : (kind, rule) ∈ rules)
    (hnullable : ((Rules.analyse rules).ofRule rule).nullable = true) :
    ((Rules.analyse rules).facts kind).nullable = true := by
  rw [← analyse_absorbs hrule, Facts.join, hnullable, Bool.or_true]

end Grammar

end LosslessTree
