import LosslessTree.Proofs.Grammar.Closure

/-!
Rounds that note on the way whether they add anything. The note is exact: it stays off if and only
if the round leaves the facts as they were. Rounds that go on while the note is on come to an end,
and with the facts of the analysis, which counts its rounds beforehand.
-/

namespace LosslessTree

namespace Lookahead

/-- Whether a union with more would add a kind of token or a word. -/
def gains (set more : Lookahead) : Bool :=
  (set.kinds.union more.kinds != set.kinds) ||
    more.words.any fun word => !set.words.contains word

theorem foldl_addWord_eq_iff {words more : List String} :
    more.foldl addWord words = words ↔ ∀ word ∈ more, word ∈ words := by
  constructor
  · intro heq word hword
    rw [← heq]
    exact mem_foldl_addWord.mpr (.inr hword)
  · intro hmore
    induction more with
    | nil => rfl
    | cons word rest ih =>
        obtain ⟨hword, hrest⟩ := List.forall_mem_cons.mp hmore
        have hadd : addWord words word = words := if_pos (List.contains_iff_mem.mpr hword)
        rw [List.foldl_cons, hadd, ih hrest]

theorem gains_eq_false_iff {set more : Lookahead} :
    set.gains more = false ↔ set.union more = set := by
  have hwords : (more.words.any fun word => !set.words.contains word) = false ↔
      more.words.foldl addWord set.words = set.words := by
    rw [foldl_addWord_eq_iff]
    simp
  rw [gains, Bool.or_eq_false_iff, hwords, bne_eq_false_iff_eq]
  obtain ⟨kinds, words⟩ := set
  simp only [union, Lookahead.mk.injEq]

end Lookahead

namespace Grammar

def Facts.gains (facts more : Facts) : Bool :=
  (more.nullable && !facts.nullable) || facts.first.gains more.first

theorem Facts.gains_eq_false_iff {facts more : Facts} :
    facts.gains more = false ↔ facts.join more = facts := by
  obtain ⟨first, nullable⟩ := facts
  rw [gains, Bool.or_eq_false_iff, Lookahead.gains_eq_false_iff]
  simp only [join, Facts.mk.injEq]
  cases nullable <;> cases more.nullable <;> simp

namespace FactTable

variable {rules entries : Rules} {kind : NodeKind} {more : Facts} {table : FactTable}

/-! ## Tables with one entry for each kind -/

def kinds (table : FactTable) : List NodeKind := table.map (·.1)

@[simp] theorem kinds_add (kind : NodeKind) (more : Facts) (table : FactTable) :
    (table.add kind more).kinds = table.kinds := by
  rw [kinds, kinds, add, List.map_map]
  refine List.map_congr_left fun entry _ => ?_
  simp only [Function.comp_apply]
  split <;> rfl

theorem kinds_round (entries : Rules) (table : FactTable) :
    (round entries table).kinds = table.kinds :=
  List.foldlRecOn (motive := fun next => kinds next = table.kinds) entries _ rfl
    fun _ hkinds _ _ => (kinds_add _ _ _).trans hkinds

theorem kinds_initial (rules : Rules) :
    kinds (rules.map fun entry => (entry.1, Facts.none)) = rules.map (·.1) := by
  rw [kinds, List.map_map]
  rfl

theorem facts_of_mem (hnodup : table.kinds.Nodup) {facts : Facts} (hmem : (kind, facts) ∈ table) :
    table.facts kind = facts := by
  obtain ⟨before, after, rfl⟩ := List.append_of_mem hmem
  have hlookup : List.lookup kind (before ++ (kind, facts) :: after) = some facts := by
    rw [List.lookup_eq_some_iff]
    refine ⟨before, after, rfl, fun entry hentry => ?_⟩
    rw [kinds, List.map_append, List.nodup_append] at hnodup
    have hne := hnodup.2.2 entry.1 (List.mem_map_of_mem hentry) kind List.mem_cons_self
    simpa using Ne.symm hne
  rw [FactTable.facts, hlookup, Option.getD_some]

theorem add_eq_self_iff (hnodup : table.kinds.Nodup) (hkind : kind ∈ table.kinds) :
    table.add kind more = table ↔ (table.facts kind).gains more = false := by
  rw [Facts.gains_eq_false_iff]
  obtain ⟨⟨other, facts⟩, hmem, heq⟩ := List.mem_map.mp hkind
  obtain rfl : other = kind := heq
  have hfacts := facts_of_mem hnodup hmem
  constructor
  · intro heq
    have hadded : (other, facts.join more) ∈ table.add other more :=
      List.mem_map.mpr ⟨_, hmem, if_pos rfl⟩
    rw [heq] at hadded
    rw [hfacts, ← facts_of_mem hnodup hadded, hfacts]
  · intro hjoin
    have hsame : ∀ entry ∈ table,
        (if entry.1 = other then (entry.1, entry.2.join more) else entry) = entry := by
      intro entry hentry
      split
      · next heq =>
          rw [← heq, facts_of_mem hnodup hentry] at hjoin
          rw [hjoin]
      · rfl
    exact (List.map_congr_left hsame).trans (List.map_id _)

/-! ## Rounds with a note -/

/-- Adds what a rule says, and notes it if that is new. -/
def visit (state : FactTable × Bool) (entry : NodeKind × Rule) : FactTable × Bool :=
  let more := state.1.ofRule entry.2
  (state.1.add entry.1 more, state.2 || (state.1.facts entry.1).gains more)

def sweep (rules : Rules) (table : FactTable) : FactTable × Bool :=
  rules.foldl visit (table, false)

theorem weight_round_le (entries : Rules) (table : FactTable) :
    table.weight ≤ (round entries table).weight := by
  rcases round_grows entries table with ⟨-, heq⟩ | hlt
  · rw [heq]
  · exact Nat.le_of_lt hlt

theorem foldl_visit (hnodup : table.kinds.Nodup)
    (hentries : ∀ entry ∈ entries, entry.1 ∈ table.kinds) (changed : Bool) :
    entries.foldl visit (table, changed) =
      (round entries table, changed || decide (round entries table ≠ table)) := by
  induction entries generalizing table changed with
  | nil => simp [round]
  | cons entry rest ih =>
      obtain ⟨hkind, hrest⟩ := List.forall_mem_cons.mp hentries
      have hround : round (entry :: rest) table =
          round rest (table.add entry.1 (table.ofRule entry.2)) := rfl
      have hadded : (table.add entry.1 (table.ofRule entry.2)).kinds.Nodup := by rwa [kinds_add]
      have hstep := ih hadded (by rwa [kinds_add])
      rw [List.foldl_cons, visit, hstep, hround]
      congr 1
      cases hgains : (table.facts entry.1).gains (table.ofRule entry.2) with
      | false => rw [(add_eq_self_iff hnodup hkind).mpr hgains, Bool.or_false]
      | true =>
          -- What was added once is never taken away again.
          have hne : table.add entry.1 (table.ofRule entry.2) ≠ table := fun heq => by
            rw [(add_eq_self_iff hnodup hkind).mp heq] at hgains
            cases hgains
          have hlt : table.weight < (table.add entry.1 (table.ofRule entry.2)).weight :=
            (add_grows _ _ _).resolve_left hne
          have hle := weight_round_le rest (table.add entry.1 (table.ofRule entry.2))
          have hchanged : round rest (table.add entry.1 (table.ofRule entry.2)) ≠ table :=
            fun heq => by
              rw [heq] at hle
              exact absurd hlt (Nat.not_lt.mpr hle)
          simp [hchanged]

theorem sweep_eq (hnodup : table.kinds.Nodup)
    (hentries : ∀ entry ∈ rules, entry.1 ∈ table.kinds) :
    sweep rules table = (round rules table, decide (round rules table ≠ table)) := by
  rw [sweep, foldl_visit hnodup hentries, Bool.false_or]

/-- Rounds up to the first that notes nothing new, from a table on to the table they end with. -/
inductive Settles (rules : Rules) : FactTable → FactTable → Prop
  | done {table : FactTable} (hsame : (sweep rules table).2 = false) :
      Settles rules table (sweep rules table).1
  | more {table final : FactTable} (hchanged : (sweep rules table).2 = true)
      (hrest : Settles rules (sweep rules table).1 final) : Settles rules table final

theorem settles_of_round_eq (hnodup : table.kinds.Nodup)
    (hentries : ∀ entry ∈ rules, entry.1 ∈ table.kinds) (heq : round rules table = table) :
    Settles rules table table := by
  have hsweep := sweep_eq hnodup hentries
  have hsettles : Settles rules table (sweep rules table).1 := .done (by simp [hsweep, heq])
  rwa [hsweep, heq] at hsettles

theorem settles_solve (hnodup : table.kinds.Nodup)
    (hentries : ∀ entry ∈ rules, entry.1 ∈ table.kinds) {rounds : Nat}
    (hstable : Stable rules (solve rules rounds table)) :
    Settles rules table (solve rules rounds table) := by
  induction rounds generalizing table with
  | zero =>
      refine settles_of_round_eq hnodup hentries ?_
      exact List.foldlRecOn (motive := fun next => next = table) rules _ rfl
        fun next hnext entry hentry => by
          rw [hnext]
          exact hstable entry hentry
  | succ rounds ih =>
      unfold solve at hstable ⊢
      dsimp only at hstable ⊢
      split
      · next heq => exact settles_of_round_eq hnodup hentries heq
      · next hne =>
          rw [if_neg hne] at hstable
          have hsweep := sweep_eq hnodup hentries
          refine .more (by simp [hsweep, hne]) ?_
          rw [hsweep]
          exact ih (by rwa [kinds_round]) (by rwa [kinds_round]) hstable

end FactTable

open FactTable

/-- The unbounded rounds of rules with one rule for each kind end with what the analysis finds. -/
theorem Rules.settles_analyse {rules : Rules} (hnodup : (rules.map (·.1)).Nodup) :
    Settles rules (rules.map fun entry => (entry.1, Facts.none)) (Rules.analyse rules) := by
  refine settles_solve ?_ ?_ (analyse_stable rules)
  · rwa [kinds_initial]
  · intro entry hentry
    rw [kinds_initial]
    exact List.mem_map_of_mem hentry

end Grammar

end LosslessTree
