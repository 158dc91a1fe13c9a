import LosslessTree.Proofs.Parse.Outcome
import LosslessTree.Proofs.Token.Source
import LosslessTree.Proofs.Token.Tiling

/-!
The tree of a text spells it. Each node, also one that stands for something missing, has the text of
its range, and ranges cut no character: the tokens below a node stand end to end, as those of the
whole text do.
-/

namespace LosslessTree

open Token

namespace Node

def Spells (text : String) (node : Node) : Prop :=
  ∀ inner ∈ node.descendants, Text.Reads text inner.span.start inner.text inner.span.stop

/-- Nodes that stand end to end between two offsets of a text and spell what is there. -/
structure Row (text : String) (low : Nat) (nodes : List Node) (high : Nat) : Prop where
  joined : Span.Joined low (nodes.map span) high
  spells : ∀ node ∈ nodes, node.Spells text

theorem text_around (kind : NodeKind) {payload : Payload} (hpayload : ∀ text, payload ≠ .text text)
    (offset : Nat) (nodes : List Node) :
    (around kind payload offset nodes).text = String.join (nodes.map text) := by
  have hself : (around kind payload offset nodes).tokenText? = none := by
    cases payload with
    | none => rfl
    | text text => exact absurd rfl (hpayload text)
    | expected set => rfl
  have hjoin (nodes : List Node) :
      String.join ((nodes.flatMap descendants).filterMap tokenText?) =
        String.join (nodes.map text) := by
    induction nodes with
    | nil => rfl
    | cons node rest ih =>
        rw [List.flatMap_cons, List.filterMap_append, String.join_append, ih, List.map_cons,
          String.join_cons, text]
  rw [text, descendants_eq, List.filterMap_cons_none hself]
  exact hjoin nodes

namespace Row

variable {text : String} {low middle high : Nat} {nodes more : List Node} {spans : List Span}

theorem append (hfirst : Row text low nodes middle) (hsecond : Row text middle more high) :
    Row text low (nodes ++ more) high where
  joined := by
    rw [List.map_append]
    exact hfirst.joined.append hsecond.joined
  spells := List.forall_mem_append.mpr ⟨hfirst.spells, hsecond.spells⟩

theorem ofTokens {tokens : List Token} (htile : Tile text low tokens high) :
    Row text low (tokens.map ofToken) high where
  joined := by
    rw [List.map_map]
    exact htile.joined
  spells := by
    intro node hnode inner hinner
    obtain ⟨token, htoken, rfl⟩ := List.mem_map.mp hnode
    have hself : inner = ofToken token := List.mem_singleton.mp hinner
    have htext : (ofToken token).text = token.text := by
      simp [Node.text, ofToken, descendants, descendantsOf, tokenText?]
    rw [hself, htext]
    exact htile.reads token htoken

theorem reads (hrow : Row text low nodes high) (hlow : Text.Reads text low "" low) :
    Text.Reads text low (String.join (nodes.map Node.text)) high := by
  obtain ⟨hjoined, hspells⟩ := hrow
  induction nodes generalizing low with
  | nil =>
      obtain rfl : low = high := hjoined
      exact hlow
  | cons node rest ih =>
      obtain ⟨rfl, hrest⟩ := hjoined
      obtain ⟨hnode, hspells⟩ := List.forall_mem_cons.mp hspells
      have hself := hnode node (by rw [descendants_eq]; exact List.mem_cons_self)
      rw [List.map_cons, String.join_cons]
      exact hself.append (ih hself.at_stop hrest hspells)

theorem span_around (hjoined : Span.Joined low spans high) :
    (Span.around low spans).start = low ∧ (Span.around low spans).stop = high := by
  have hle := hjoined.le
  cases spans with
  | nil => exact ⟨rfl, hjoined⟩
  | cons span rest =>
      obtain ⟨last, hlast⟩ := Option.isSome_iff_exists.mp
        (show ((span :: rest).getLast?).isSome by simp)
      have hstop := hjoined.stop_of_getLast? hlast
      simp only [Span.around, List.head?_cons, hlast, Span.between?, hjoined.1, hstop, hle, dif_pos,
        Option.getD_some, and_self]

theorem around (hrow : Row text low nodes high) (hlow : Text.Reads text low "" low)
    (kind : NodeKind) {payload : Payload} (hpayload : ∀ text, payload ≠ .text text) :
    Row text low [Node.around kind payload low nodes] high := by
  obtain ⟨hstart, hstop⟩ := span_around hrow.joined
  refine ⟨⟨hstart, hstop⟩, List.forall_mem_singleton.mpr fun inner hinner => ?_⟩
  rw [descendants_eq] at hinner
  rcases List.mem_cons.mp hinner with rfl | hbelow
  · rw [text_around kind hpayload]
    simp only [Node.around, span_mk, hstart, hstop]
    exact hrow.reads hlow
  · obtain ⟨child, hchild, hmem⟩ := List.mem_flatMap.mp hbelow
    exact hrow.spells child hchild inner hmem

end Row

end Node

/-- The tokens of a stream cover a text, and the last one is its end. -/
structure Stream.Spells (stream : Stream) (text : String) : Prop where
  tile : Tile text 0 (stream.leading ++ stream.between 0 stream.size ++ [stream.final])
    text.utf8ByteSize
  final : stream.final.span.isEmpty = true

namespace Stream

variable {stream : Stream} {text : String}

theorem tile_start {low high position : Nat} (hposition : position ≤ stream.size)
    (htile : Tile text low (stream.between position stream.size ++ [stream.final]) high) :
    stream.offsetAt position = low ∧ Text.Reads text low "" low := by
  obtain ⟨rest, hrest⟩ := between_size_append hposition
  rw [hrest] at htile
  obtain ⟨rfl, hreads, -⟩ := htile.tail
  exact ⟨rfl, hreads.at_start⟩

theorem Spells.from_position (hspells : stream.Spells text) {position : Nat}
    (hposition : position ≤ stream.size) :
    Tile text (stream.offsetAt position) (stream.between position stream.size ++ [stream.final])
      text.utf8ByteSize := by
  have htile := hspells.tile
  rw [← between_append (Nat.zero_le position) hposition, List.append_assoc,
    List.append_assoc] at htile
  obtain ⟨_, -, hrest⟩ := htile.split
  obtain ⟨middle, -, htile⟩ := hrest.split
  obtain ⟨rfl, -⟩ := tile_start hposition htile
  exact htile

theorem Spells.between (hspells : stream.Spells text) {start stop : Nat} (hstart : start ≤ stop)
    (hstop : stop ≤ stream.size) :
    Tile text (stream.offsetAt start) (stream.between start stop) (stream.offsetAt stop) := by
  have htile := hspells.from_position (Nat.le_trans hstart hstop)
  rw [← between_append hstart hstop, List.append_assoc] at htile
  obtain ⟨middle, hfront, hback⟩ := htile.split
  obtain ⟨rfl, -⟩ := tile_start hstop hback
  exact hfront

theorem Spells.at_position (hspells : stream.Spells text) {position : Nat}
    (hposition : position ≤ stream.size) :
    Text.Reads text (stream.offsetAt position) "" (stream.offsetAt position) :=
  (tile_start hposition (hspells.from_position hposition)).2

theorem Spells.leading (hspells : stream.Spells text) :
    Tile text 0 stream.leading (stream.offsetAt 0) := by
  have htile := hspells.tile
  rw [List.append_assoc] at htile
  obtain ⟨middle, hfront, hback⟩ := htile.split
  obtain ⟨rfl, -⟩ := tile_start (Nat.zero_le _) hback
  exact hfront

theorem Spells.offsetAt_size (hspells : stream.Spells text) :
    stream.offsetAt stream.size = text.utf8ByteSize := by
  have htile := hspells.from_position (Nat.le_refl stream.size)
  rw [between_self, List.nil_append] at htile
  calc
    stream.offsetAt stream.size = stream.final.span.start := htile.joined.1.symm
    _ = stream.final.span.stop := by simpa [Span.isEmpty] using hspells.final
    _ = text.utf8ByteSize := htile.joined.2

theorem ofTokens_spells (settings : Settings) (text : String) :
    (ofTokens (tokensOfText settings text)).Spells text := by
  obtain ⟨front, stop, heq, hfront⟩ := tokensOfText_ends settings text
  have htake : (front ++ [eof stop]).takeWhile (·.kind != .eof) = front := by
    rw [List.takeWhile_append_of_pos (by simpa using hfront)]
    simp [eof, zeroWidth]
  have hfinal : Tape.finalOf (front ++ [eof stop]) = eof stop := by
    have hfind : (front ++ [eof stop]).find? (·.kind = .eof) = some (eof stop) := by
      rw [List.find?_append, List.find?_eq_none.mpr (by simpa using hfront)]
      rfl
    rw [Tape.finalOf, hfind]
  refine ⟨?_, ?_⟩
  · have htile := tokensOfText_tile settings text
    rw [ofTokens_tokens, heq, htake]
    change Tile text 0 (front ++ [Tape.finalOf (front ++ [eof stop])]) _
    rw [hfinal, ← heq]
    exact htile
  · change (Tape.finalOf (tokensOfText settings text)).span.isEmpty = true
    rw [heq, hfinal]
    exact beq_self_eq_true stop

end Stream

namespace Shape

variable {stream : Stream} {text : String}

theorem nodesOf_row (hspells : stream.Spells text) {grammar : Grammar} {shapes : List Shape}
    {reports : List Report} {start stop : Nat}
    (hcovers : Parse.Covers grammar stream.size shapes reports start stop)
    (hstart : start ≤ stream.size) :
    Node.Row text (stream.offsetAt start) (nodesOf stream shapes) (stream.offsetAt stop) := by
  induction hcovers with
  | nil start => exact ⟨rfl, fun _ hnode => absurd hnode List.not_mem_nil⟩
  | token hlt _ ih => exact (Node.Row.ofTokens (hspells.between (Nat.le_succ _) hlt)).append (ih hlt)
  | @node kind _ _ _ _ _ _ _ _ hchildren _ ihchildren ihrest =>
      have hrow := (ihchildren hstart).around (hspells.at_position hstart) kind
        (show ∀ text, Payload.none ≠ .text text from fun _ => Payload.noConfusion)
      exact hrow.append (ihrest (hchildren.stop_le_size hstart))
  | @error report stop rest reports hextent _ ih =>
      have htile := hspells.between (Nat.le_add_right report.position report.extent) hextent
      have htokens : stream.between report.position (report.position + report.extent) = _ :=
        (splitLast_tokens (wordsAt stream report.position report.extent)).symm
      rw [htokens] at htile
      obtain ⟨middle, hinner, hafter⟩ := htile.split
      have hrow := (Node.Row.ofTokens hinner).around (hspells.at_position hstart) .error
        (show ∀ text, Payload.expected report.expected ≠ .text text from fun _ =>
          Payload.noConfusion)
      rw [nodesOf, nodes, List.cons_append]
      exact hrow.append ((Node.Row.ofTokens hafter).append (ih hextent))

theorem rootOf_row (hspells : stream.Spells text) {grammar : Grammar} {shapes : List Shape}
    {reports : List Report} {stop : Nat}
    (hcovers : Parse.Covers grammar stream.size shapes reports 0 stop) (kind : NodeKind) :
    Node.Row text 0 [rootOf stream kind shapes] (stream.offsetAt stop) := by
  have hleading := hspells.leading
  have hrow := (Node.Row.ofTokens hleading).append
    (nodesOf_row hspells hcovers (Nat.zero_le stream.size))
  have hstart : stream.start = 0 := by
    unfold Stream.start
    split
    · next heq =>
        rw [heq] at hleading
        exact hleading.joined.1
    · next heq =>
        rw [heq] at hleading
        exact hleading.joined.symm
  have hlow : Text.Reads text 0 "" 0 := (Text.Reads.whole text).at_start
  rw [rootOf, hstart]
  exact hrow.around hlow kind fun _ => Payload.noConfusion

end Shape

namespace Parse

/-- Every text has a tree that spells it: the root from its start to its end, and each node what the
text has in its range. -/
theorem parseText_spells {start : NodeKind} (hstart : Grammar.standard.contains start = true)
    (settings : Settings) (text : String) :
    ∃ parsed, parseText settings start text = .ok parsed ∧
      parsed.tree.root.span.start = 0 ∧ parsed.tree.root.span.stop = text.utf8ByteSize ∧
      parsed.tree.root.text = text ∧
      ∀ node ∈ parsed.tree.root.descendants,
        Text.Reads text node.span.start node.text node.span.stop := by
  obtain ⟨shapes, reports, problems, htraced, -, hparse⟩ :=
    parse_eq .standard settings start (tokensOfText_ordered settings text)
  let stream := Stream.ofTokens (tokensOfText settings text)
  have hspells : stream.Spells text := Stream.ofTokens_spells settings text
  have hrow := Shape.rootOf_row hspells htraced.covers start
  obtain ⟨⟨hlow, hhigh⟩, hreads⟩ := hrow
  have hspelled := hreads _ (List.mem_singleton_self _)
  have hroot : Text.Reads text 0 (Shape.rootOf stream start shapes).text text.utf8ByteSize := by
    have hself := hspelled _ (by rw [Node.descendants_eq]; exact List.mem_cons_self)
    rwa [hlow, hhigh.trans hspells.offsetAt_size] at hself
  exact ⟨_, parseTokens_eq hstart settings hparse, hlow, hhigh.trans hspells.offsetAt_size,
    hroot.eq_whole, hspelled⟩

theorem parseText_spells_of_misfits :
    ∃ parsed, parseText .default (.construct .module) "é = do\n  → ) ∀\n" = .ok parsed ∧
      parsed.tree.root.span.start = 0 ∧
      parsed.tree.root.span.stop = "é = do\n  → ) ∀\n".utf8ByteSize ∧
      parsed.tree.root.text = "é = do\n  → ) ∀\n" ∧
      ∀ node ∈ parsed.tree.root.descendants,
        Text.Reads "é = do\n  → ) ∀\n" node.span.start node.text node.span.stop :=
  parseText_spells (show Grammar.standard.contains (.construct .module) = true by decide +kernel)
    .default "é = do\n  → ) ∀\n"

/-- The text of a node need not be read as that node: a heading by itself ends with the word that
opens a block, and where the text is over the layout gives it an empty one. -/
theorem exists_part_misread :
    (parseText ⟨32, .none⟩ (.construct .module) "module M where \x7b \x7d").toOption.map
        (fun parsed => (parsed.problems,
          (parsed.tree.root.descendants.filter (·.kind = .construct .moduleDeclaration)).map
            fun node => (node.text, node.descendants.any fun inner =>
              inner.isToken && inner.span.isEmpty))) =
      some ([], [("module M where ", false)]) ∧
    (parseText ⟨32, .none⟩ (.construct .moduleDeclaration) "module M where ").toOption.map
        (·.problems.length) = some 1 := by
  decide +kernel

end Parse

end LosslessTree
