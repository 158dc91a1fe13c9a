import Mathlib.Data.List.Forall2
import LosslessTree.Proofs.Parse.Alike
import LosslessTree.Proofs.Parse.Outcome

/-!
A parse depends on the significant tokens only, and of their texts only on which words of the
grammar they are. Blanks, comments, places and all other texts leave its gist as it is. They move
the indices that the parser compares; but each parse comes to one over words, and these are alike.
-/

namespace LosslessTree

def Token.significant (tokens : List Token) : List Token :=
  (tokens.takeWhile (·.kind != .eof)).filter (!·.isTrivia)

/-- The tree without blanks, places and texts, and what each problem expected. -/
def Parsed.gist (parsed : Parsed) : Outline Unit × List Lookahead :=
  (parsed.tree.root.outline fun _ => (), parsed.problems.map (·.expected))

namespace Stream

theorem group_words (tokens : List Token) :
    (group tokens).2.map (·.token) = tokens.filter (!·.isTrivia) := by
  induction tokens with
  | nil => rfl
  | cons token rest ih =>
      unfold group
      dsimp only
      split
      · next htrivia =>
          rw [List.filter_cons_of_neg (by simp [htrivia])]
          exact ih
      · next htrivia =>
          rw [List.filter_cons_of_pos (by simpa using htrivia), List.map_cons]
          exact congrArg _ ih

theorem words_ofTokens (tokens : List Token) :
    (ofTokens tokens).words.toList.map (·.token) = Token.significant tokens :=
  group_words _

theorem size_ofTokens (tokens : List Token) :
    (ofTokens tokens).size = (Token.significant tokens).length := by
  rw [← words_ofTokens, List.length_map, size, Array.length_toList]

theorem tokenAt_ofTokens {tokens : List Token} {position : Nat}
    (hposition : position < (Token.significant tokens).length) :
    (ofTokens tokens).tokenAt position = (Token.significant tokens)[position] := by
  have hsize : position < (ofTokens tokens).words.size := by
    rw [← size_ofTokens] at hposition
    exact hposition
  rw [tokenAt_eq (Array.getElem?_eq_getElem hsize)]
  simp only [← words_ofTokens, List.getElem_map, Array.getElem_toList]

theorem tokenAt_of_le {stream : Stream} {position : Nat} (hposition : stream.size ≤ position) :
    stream.tokenAt position = stream.final := by
  rw [tokenAt, Array.getElem?_eq_none hposition]

theorem alike_ofTokens {words : List String} {tokens others : List Token}
    (halike : List.Forall₂ (Token.Alike words) (Token.significant tokens)
      (Token.significant others)) :
    (ofTokens tokens).Alike words (ofTokens others) where
  size := by rw [size_ofTokens, size_ofTokens, halike.length_eq]
  token position := by
    rcases Nat.lt_or_ge position (Token.significant tokens).length with hlt | hge
    · have hother : position < (Token.significant others).length := halike.length_eq ▸ hlt
      rw [tokenAt_ofTokens hlt, tokenAt_ofTokens hother]
      exact halike.get hlt hother
    · have hfinal : ∀ tokens, (Token.significant tokens).length ≤ position →
          ((ofTokens tokens).tokenAt position).kind = .eof := by
        intro tokens hle
        rw [tokenAt_of_le (by rwa [size_ofTokens]), final_ofTokens]
      have hkind := hfinal tokens hge
      refine ⟨hkind.trans (hfinal others (halike.length_eq ▸ hge)).symm, fun hword => ?_⟩
      rw [hkind] at hword
      cases hword

theorem Alike.kinds {words : List String} {left right : Stream} (halike : left.Alike words right) :
    left.words.map (·.token.kind) = right.words.map (·.token.kind) := by
  have hsize : left.words.size = right.words.size := halike.size
  refine Array.ext (by rw [Array.size_map, Array.size_map, hsize]) fun position hleft hright => ?_
  rw [Array.size_map] at hleft hright
  have hkind := (halike.token position).kind
  rw [tokenAt_eq (Array.getElem?_eq_getElem hleft), tokenAt_eq (Array.getElem?_eq_getElem hright)]
    at hkind
  rwa [Array.getElem_map, Array.getElem_map]

end Stream

namespace Shape

variable {words : List String} {left right : Stream}

theorem wordsAt_outline (halike : left.Alike words right) (position extent : Nat) :
    (wordsAt left position extent).map (·.token.outline fun _ => ()) =
      (wordsAt right position extent).map (·.token.outline fun _ => ()) := by
  have hkinds (stream : Stream) :
      (wordsAt stream position extent).map (·.token.outline fun _ => ()) =
        ((stream.words.map (·.token.kind)).extract position (position + extent)).toList.map
          (Outline.leaf · ()) := by
    rw [wordsAt, ← Array.map_extract, Array.toList_map, List.map_map]
    rfl
  rw [hkinds, hkinds, halike.kinds]

mutual

theorem outline_alike (halike : left.Alike words right) : ∀ shape : Shape,
    shape.outline left (fun _ => ()) = shape.outline right (fun _ => ())
  | token position => congrArg (Outline.leaf · ()) (halike.token position).kind
  | node kind _ children => congrArg (Outline.node kind none) (outlines_alike halike children)
  | error expected position extent =>
    congrArg (Outline.node .error (some expected)) (wordsAt_outline halike position extent)

theorem outlines_alike (halike : left.Alike words right) : ∀ shapes : List Shape,
    outlines left (fun _ => ()) shapes = outlines right (fun _ => ()) shapes
  | [] => rfl
  | shape :: rest =>
    congrArg₂ List.cons (outline_alike halike shape) (outlines_alike halike rest)

end

end Shape

namespace Parse

open Grammar

variable {rules : Rules} {grammar : Grammar} {start : NodeKind} {tokens others : List Token}

theorem within_of_build (hbuild : build rules = .ok grammar) :
    ∀ production ∈ grammar.productions, ∀ place ∈ production.places,
      Place.Within (Rules.words rules) place := by
  intro production hproduction place hplace
  have hsets := Rules.inherited_within rules
  obtain ⟨hfirst, hfollow⟩ := hsets.sets_of_place hbuild hproduction hplace
  exact ⟨hfirst, hfollow, fun part hpart => hsets.sets_of_part hbuild hproduction hplace hpart⟩

theorem gist_eq (grammar : Grammar) (settings : Settings) (start : NodeKind)
    (hordered : Token.Ordered tokens) :
    ∃ shapes reports parsed,
      Traced (Session.of grammar settings tokens).afresh start shapes reports ∧
      (Session.of grammar settings tokens).parse start = .ok parsed ∧
      parsed.gist = (.node start none (Shape.outlines (.ofTokens tokens) (fun _ => ()) shapes),
        reports.map (·.expected)) := by
  obtain ⟨shapes, reports, problems, htraced, hproblems, hparse⟩ :=
    parse_eq grammar settings start hordered
  obtain ⟨same, hsame, hmap⟩ :=
    problemsOf_eq (Stream.ordered_ofTokens hordered) fun _ => htraced.covers.extent_le
  obtain rfl : problems = same := Except.ok.inj (hproblems.symm.trans hsame)
  have hexpected := congrArg (List.map Prod.snd) hmap
  rw [List.map_map, List.map_map] at hexpected
  have houtline : (Shape.rootOf (.ofTokens tokens) start shapes).outline (fun _ => ()) =
      .node start none (Shape.outlines (.ofTokens tokens) (fun _ => ()) shapes) :=
    Shape.outline_rootOf (Stream.grouped_ofTokens tokens) htraced.covers start
  exact ⟨shapes, reports, _, htraced, hparse, Prod.ext houtline hexpected⟩

def importing : Rules :=
  [(.construct .importDeclaration,
    [.all [.token .kwImport], .allOrNone [.word "qualified"], .all [.token .varId]])]

def importTokens : List Token :=
  [.covering .kwImport 0 "import", .covering .varId 6 "qualified", .covering .varId 15 "a"]

def spacedTokens : List Token :=
  [.covering .whitespace 0 " ", .covering .kwImport 1 "import", .covering .whitespace 7 " ",
    .covering .varId 8 "qualified", .covering .whitespace 17 "  ", .covering .varId 19 "name"]

/-- Where the significant tokens are alike, parses have the same gist. -/
theorem parseTokens_gist_eq (hbuild : build rules = .ok grammar) (settings : Settings)
    (start : NodeKind) (hordered : Token.Ordered tokens) (hothers : Token.Ordered others)
    (halike : List.Forall₂ (Token.Alike (Rules.words rules)) (Token.significant tokens)
      (Token.significant others)) :
    (parseTokens grammar settings start tokens).map Parsed.gist =
        (parseTokens grammar settings start others).map Parsed.gist ∧
      (grammar.contains start = true →
        ∃ parsed, parseTokens grammar settings start tokens = .ok parsed) := by
  obtain ⟨shapes, reports, parsed, htraced, hparse, hgist⟩ :=
    gist_eq grammar settings start hordered
  obtain ⟨otherShapes, otherReports, another, hother, hparseOther, hotherGist⟩ :=
    gist_eq grammar settings start hothers
  have hstreams := Stream.alike_ofTokens halike
  let session := (Session.of grammar settings tokens).afresh
  have hrun : run (session.over (.ofTokens others)) start = run session start :=
    run_over hstreams (within_of_build hbuild) start
  have hshapes : otherShapes = shapes :=
    List.reverse_injective (hother.built_eq.symm.trans
      ((congrArg State.built hrun).trans htraced.built_eq))
  have hreports : otherReports = reports :=
    List.reverse_injective (hother.reports_eq.symm.trans
      ((congrArg State.reports hrun).trans htraced.reports_eq))
  rw [hshapes, hreports, ← Shape.outlines_alike hstreams, ← hgist] at hotherGist
  refine ⟨?_, fun hstart => ⟨parsed, parseTokens_eq hstart settings hparse⟩⟩
  rw [parseTokens_words, parseTokens_words]
  split
  · rfl
  · rw [hparse, hparseOther]
    exact congrArg Except.ok hotherGist.symm

theorem parseTokens_gist_eq_of_importing :
    (parseTokens (compile importing) .default (.construct .importDeclaration) importTokens).map
        Parsed.gist =
      (parseTokens (compile importing) .default (.construct .importDeclaration) spacedTokens).map
        Parsed.gist ∧
      ((compile importing).contains (.construct .importDeclaration) = true → ∃ parsed,
        parseTokens (compile importing) .default (.construct .importDeclaration) importTokens =
          .ok parsed) := by
  have halike : List.Forall₂ (Token.Alike (Rules.words importing))
      (Token.significant importTokens) (Token.significant spacedTokens) := by
    refine .cons ⟨rfl, by decide⟩ (.cons ⟨rfl, by decide⟩ (.cons ⟨rfl, by decide⟩ .nil))
  exact parseTokens_gist_eq (show build importing = _ from rfl) .default _
    (by unfold Token.Ordered; decide) (by unfold Token.Ordered; decide) halike

end Parse

end LosslessTree
