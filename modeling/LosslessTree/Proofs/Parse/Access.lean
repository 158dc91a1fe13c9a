import LosslessTree.Proofs.Parse.Recovery
import LosslessTree.Proofs.Token.Source

/-!
Access to children in trees of texts. The accessors succeed on every node that does not nest too
deep: kinds that may turn out to be missing have no child that must be there once.
-/

namespace LosslessTree

open Grammar

namespace Parse

/-- The symbols that may turn out to be missing from some rule. -/
def requiredSymbols (rules : Rules) : List Symbol := rules.flatMap fun entry =>
  entry.2.flatMap Slot.required

theorem required_of_requires {rules : Rules} {grammar : Grammar}
    (hbuild : build rules = .ok grammar) {kind : NodeKind} (hrequires : grammar.Requires kind) :
    Symbol.node kind ∈ requiredSymbols rules := by
  obtain ⟨place, ⟨owner, production, hproduction, hplace⟩, hrequired⟩ := hrequires
  obtain ⟨rule, hrule, heq⟩ := production_of_rule hbuild hproduction
  rw [heq] at hplace
  exact List.mem_flatMap.mpr ⟨(owner, rule), hrule,
    List.mem_flatMap.mpr ⟨place.slot, slot_mem_of_mem_placesOf hplace, hrequired⟩⟩

theorem required_permits_none : ∀ entry ∈ Standard.rules,
    Symbol.node entry.1 ∈ requiredSymbols Standard.rules →
      ∀ accessor ∈ AccessorTable.ofRule entry.2, accessor.2 ≠ .exactlyOne := by
  decide +kernel

theorem exactlyOne_not_required {kind child : NodeKind} (hrequires : standard.Requires kind)
    {production : Production} (hproduction : standard.production? kind = some production) :
    production.accessor? child ≠ some .exactlyOne := by
  intro haccessor
  obtain ⟨rule, hrule, heq⟩ := production_of_rule build_standard hproduction
  rw [heq] at haccessor
  obtain ⟨before, after, happend, -⟩ := List.lookup_eq_some_iff.mp haccessor
  have hmem : (child, Multiplicity.exactlyOne) ∈ AccessorTable.ofRule rule := by
    have hmiddle : (child, Multiplicity.exactlyOne) ∈ before ++ (child, .exactlyOne) :: after :=
      List.mem_append_right _ List.mem_cons_self
    rwa [← happend] at hmiddle
  exact required_permits_none _ hrule (required_of_requires build_standard hrequires) _ hmem rfl

/-- In the tree of a text, access to the children of a node succeeds in the multiplicity of the
rule. Only children that must be there may be missing, and only from nodes that nest too deep. -/
theorem parseText_gives_access {start : NodeKind} (hstart : standard.contains start = true)
    (settings : Settings) (text : String) :
    ∃ parsed, parseText settings start text = .ok parsed ∧
      ∀ cursor ∈ (Cursor.ofRoot parsed.tree.root).descendants, ∀ projection,
        Projection.of .standard cursor = .ok projection → ∀ child multiplicity,
          projection.production.accessor? child = some multiplicity →
            (∃ found, projection.get child = .ok found) ∨
              multiplicity = .exactlyOne ∧ cursor.above.length = depthLimit + 1 := by
  have htokens : ∀ kind, NodeKind.token kind ∉ Standard.rules.map (·.1) := by
    intro kind hkind
    rw [Standard.rules, List.map_map] at hkind
    obtain ⟨entry, -, hentry⟩ := List.mem_map.mp hkind
    cases hentry
  have herror : NodeKind.error ∉ Standard.rules.map (·.1) := by decide
  obtain ⟨parsed, hparse, hnodes⟩ := exists_recovered build_standard htokens herror
    (by decide +kernel) hstart settings (tokensOfText_ordered settings text)
  refine ⟨parsed, hparse, fun cursor hcursor projection hview child multiplicity haccessor => ?_⟩
  obtain ⟨hfocus, hproduction⟩ := Projection.of_eq_ok hview
  have hregistered : cursor.kind ∈ Standard.rules.map (·.1) := by
    rw [← contains_iff build_standard, contains, hproduction]
    rfl
  have hcomposite : cursor.focus.isToken = false := by
    cases hkind : cursor.focus.kind with
    | token kind => exact absurd (hkind ▸ hregistered) (htokens kind)
    | _ => simp [Node.isToken, hkind, NodeKind.isToken]
  have hproper : cursor.focus.isError = false := by
    rw [Node.isError, beq_eq_false_iff_ne]
    exact fun heq => herror (heq ▸ hregistered)
  have hrecovered := hnodes cursor hcursor hcomposite hproper
  have hmultiplicity : multiplicity ≠ .oneOrMore := by
    obtain ⟨rule, -, heq⟩ := production_of_rule build_standard hproduction
    intro hone
    rw [heq, hone] at haccessor
    exact AccessorTable.lookup_ofRule_ne_oneOrMore child rule haccessor
  rcases hrecovered.permits build_standard htokens herror hproduction haccessor with
    hcount | ⟨hcount, hreason⟩
  · exact .inl (Projection.exists_get haccessor hmultiplicity (hfocus ▸ hcount))
  · cases multiplicity with
    | exactlyOne =>
        refine .inr ⟨rfl, hreason.resolve_left fun hrequires => ?_⟩
        exact exactlyOne_not_required hrequires hproduction haccessor
    | zeroOrOne =>
        refine .inl (Projection.exists_get haccessor hmultiplicity ?_)
        rw [hfocus, hcount]
        exact Nat.zero_le 1
    | zeroOrMore => exact .inl (Projection.exists_get haccessor hmultiplicity trivial)
    | oneOrMore => exact absurd rfl hmultiplicity

theorem parseText_gives_access_of_block :
    ∃ parsed, parseText .default (.construct .declarationBlock) "{ type T = }" = .ok parsed ∧
      ∀ cursor ∈ (Cursor.ofRoot parsed.tree.root).descendants, ∀ projection,
        Projection.of .standard cursor = .ok projection → ∀ child multiplicity,
          projection.production.accessor? child = some multiplicity →
            (∃ found, projection.get child = .ok found) ∨
              multiplicity = .exactlyOne ∧ cursor.above.length = depthLimit + 1 :=
  parseText_gives_access (show standard.contains (.construct .declarationBlock) = true by
    decide +kernel) .default "{ type T = }"

/-- So many lists, one in the other, around a block with a name in it. -/
def nestedLists : (levels offset : Nat) → List Token
  | 0, offset =>
    [.covering .kwLet offset "let", .covering .leftBrace (offset + 3) "\x7b",
      .covering .varId (offset + 4) "x"]
  | levels + 1, offset => .covering .leftBracket offset "[" :: nestedLists levels (offset + 1)

def accessError? (parsed : Parsed) (path : List Nat) (child : NodeKind) : Option Error := do
  let cursor ← parsed.tree.root.at? path
  let projection ← (Projection.of .standard cursor).toOption
  match projection.get child with
  | .ok _ => none
  | .error error => some error

/-- One level too deep, the signature that the name begins is cut off and has no type. -/
theorem access_fails_beyond_depthLimit :
    ((parseTokens .standard .default (.construct .listExpression)
      (nestedLists 99 0)).toOption.bind fun parsed =>
        accessError? parsed (List.replicate (depthLimit + 1) 1) (.construct .typeTerm)) =
      some (.childCount (.construct .typeSignature) (.construct .typeTerm) ⟨103, 104, by decide⟩
        0) := by
  rw [parseTokens_words]
  decide +kernel

end Parse

end LosslessTree
