import LosslessTree.Proofs.Text.Decoding

/-!
Decoding by byte offsets. Places in a text are told in bytes here, a text can be cut between two
characters only, and codes are read in words of 32 bits. No cut lies inside a character, no code is
too large for a word without being found out, and the result is that of decoding character by
character.
-/

namespace LosslessTree

namespace Text

/-! ## Cuts -/

def byteSize (chars : List Char) : Nat := (String.ofList chars).utf8ByteSize

@[simp] theorem byteSize_nil : byteSize [] = 0 := rfl

@[simp] theorem byteSize_cons (c : Char) (rest : List Char) :
    byteSize (c :: rest) = c.utf8Size + byteSize rest := by
  simp [byteSize, String.ofList_cons]

@[simp] theorem byteSize_append (front back : List Char) :
    byteSize (front ++ back) = byteSize front + byteSize back := by
  simp [byteSize, String.ofList_append]

theorem byteSize_toList (text : String) : byteSize text.toList = text.utf8ByteSize := by
  rw [byteSize, String.ofList_toList]

inductive Miscut where
  | insideCharacter
  | behindEnd

def cut : (offset : Nat) → (text : List Char) → Except Miscut (List Char × List Char)
  | 0, text => .ok ([], text)
  | _ + 1, [] => .error .behindEnd
  | offset + 1, c :: rest =>
    if offset + 1 < c.utf8Size then .error .insideCharacter
    else
      match cut (offset + 1 - c.utf8Size) rest with
      | .error miscut => .error miscut
      | .ok (front, back) => .ok (c :: front, back)

theorem cut_append (front back : List Char) :
    cut (byteSize front) (front ++ back) = .ok (front, back) := by
  induction front with
  | nil => rw [byteSize_nil, List.nil_append, cut]
  | cons c front ih =>
      have hpos := c.utf8Size_pos
      obtain ⟨offset, hoffset⟩ : ∃ offset, byteSize (c :: front) = offset + 1 :=
        Nat.exists_eq_succ_of_ne_zero (by rw [byteSize_cons]; omega)
      have hrest : offset + 1 - c.utf8Size = byteSize front := by
        rw [← hoffset, byteSize_cons, Nat.add_sub_cancel_left]
      have hinside : ¬offset + 1 < c.utf8Size := by
        rw [← hoffset, byteSize_cons]
        omega
      rw [hoffset, List.cons_append, cut, if_neg hinside, hrest, ih]

theorem length_of_cut {offset : Nat} {text front back : List Char}
    (hcut : cut offset text = .ok (front, back)) (hpos : 0 < offset) :
    back.length < text.length := by
  induction text generalizing offset front with
  | nil =>
      obtain ⟨offset, rfl⟩ := Nat.exists_eq_succ_of_ne_zero (Nat.ne_of_gt hpos)
      cases hcut
  | cons c rest ih =>
      obtain ⟨offset, rfl⟩ := Nat.exists_eq_succ_of_ne_zero (Nat.ne_of_gt hpos)
      rw [cut] at hcut
      split at hcut
      · cases hcut
      · split at hcut
        · cases hcut
        · next hrest =>
            obtain ⟨-, rfl⟩ := Prod.mk.inj (Except.ok.inj hcut)
            rw [List.length_cons]
            rcases Nat.eq_zero_or_pos (offset + 1 - c.utf8Size) with hzero | hmore
            · rw [hzero, cut] at hrest
              obtain ⟨-, rfl⟩ := Prod.mk.inj (Except.ok.inj hrest)
              exact Nat.lt_succ_self _
            · exact Nat.lt_succ_of_lt (ih hrest hmore)

def offsetOf? (test : Char → Bool) (text : List Char) : Option Nat :=
  if text.any test then some (byteSize (text.takeWhile (!test ·))) else none

/-! ## Numbers -/

def wordSize : Nat := 2 ^ 32

def checked (number : Nat) : Option Nat := if number < wordSize then some number else none

/-- The number that digits spell, if it fits into a word. No step goes beyond a word. -/
def word? (base : Nat) (digits : List Char) : Option Nat :=
  digits.foldlM (fun value c =>
    (checked (value * base)).bind fun scaled => checked (scaled + digitValue c)) 0

theorem checked_bind_add (number more : Nat) :
    ((checked number).bind fun number => checked (number + more)) = checked (number + more) := by
  unfold checked
  split
  · rfl
  · next hlarge => rw [if_neg (by omega), Option.bind_none]

theorem checked_bind_mul {base : Nat} (hbase : 0 < base) (number more : Nat) :
    ((checked number).bind fun number => checked (number * base + more)) =
      checked (number * base + more) := by
  have hle : number ≤ number * base := Nat.le_mul_of_pos_right number hbase
  unfold checked
  split
  · rfl
  · next hlarge => rw [if_neg (by omega), Option.bind_none]

/-- A number is lost on the way exactly if it is too large in the end. -/
theorem word?_eq {base : Nat} (hbase : 0 < base) (digits : List Char) :
    word? base digits = checked (valueOfDigits base digits) := by
  induction digits using List.reverseRecOn with
  | nil => rfl
  | append_singleton digits c ih =>
      have hvalue : valueOfDigits base (digits ++ [c]) =
          valueOfDigits base digits * base + digitValue c := by
        rw [valueOfDigits, List.foldl_append]
        rfl
      calc
        word? base (digits ++ [c]) = (word? base digits).bind fun value =>
            (checked (value * base)).bind fun scaled => checked (scaled + digitValue c) := by
          simp [word?, List.foldlM_append]
        _ = (checked (valueOfDigits base digits)).bind fun value =>
            checked (value * base + digitValue c) := by
          simp only [ih, checked_bind_add]
        _ = checked (valueOfDigits base (digits ++ [c])) := by
          rw [checked_bind_mul hbase, hvalue]

theorem charOfCode?_of_large {code : Nat} (hlarge : wordSize ≤ code) : charOfCode? code = none := by
  have hinvalid : ¬code.isValidChar := by
    unfold Nat.isValidChar wordSize at *
    omega
  rw [charOfCode?, if_neg hinvalid]

theorem checked_bind_charOfCode? (code : Nat) :
    (checked code).bind charOfCode? = charOfCode? code := by
  unfold checked
  split
  · rfl
  · next hlarge => rw [charOfCode?_of_large (Nat.le_of_not_lt hlarge), Option.bind_none]

/-! ## Escapes -/

/-- The character of the digits at the front, and how many bytes they take. -/
def numericEscapeAt (base : Nat) (text : List Char) :
    Except Miscut (Option (Char × Nat)) := do
  let length := (offsetOf? (!Lexeme.isDigitIn base ·) text).getD (byteSize text)
  let (digits, _) ← cut length text
  if digits.isEmpty then return none
  else return ((word? base digits).bind charOfCode?).map (·, length)

def gapAt (text : List Char) : Except Miscut (Option Nat) :=
  match offsetOf? (!isBlank ·) text with
  | none => .ok none
  | some gap => do
    let (_, rest) ← cut gap text
    return if rest.head? = some '\\' then some (gap + 1) else none

def escapeAt (text : List Char) : Except Miscut (Option (Option Char × Nat)) :=
  match text with
  | [] => .ok none
  | c :: _ =>
    match singleEscape? c with
    | some denoted => .ok (some (some denoted, c.utf8Size))
    | none =>
      if c = '&' then .ok (some (none, 1))
      else if c = '^' then do
        let (_, rest) ← cut 1 text
        return (rest.head?.filter fun control => '@' ≤ control ∧ control ≤ '_').map fun control =>
          (some (Char.ofNat (control.toNat - '@'.toNat)), 2)
      else if c = 'x' ∨ c = 'o' then do
        let (_, rest) ← cut 1 text
        let number ← numericEscapeAt (if c = 'x' then 16 else 8) rest
        return number.map fun (denoted, length) => (some denoted, length + 1)
      else if isDecimalDigit c then do
        let number ← numericEscapeAt 10 text
        return number.map fun (denoted, length) => (some denoted, length)
      else if isBlank c then do
        let gap ← gapAt text
        return gap.map (none, ·)
      else
        .ok <| (controlNames.find? fun (name, _) => name.toList.isPrefixOf text).map
          fun (name, code) => (some (Char.ofNat code), name.utf8ByteSize)

/-- Decodes a text from one backslash to the next. -/
def unescapeAt (text : List Char) : Except Miscut (Option (List Char)) :=
  match offsetOf? (· == '\\') text with
  | none => .ok (some text)
  | some backslash => do
    let (front, _) ← cut backslash text
    let (_, behind) ← cut (backslash + 1) text
    match ← escapeAt behind with
    | none => return none
    | some (denoted, length) =>
      match _hcut : cut (backslash + 1 + length) text with
      | .error miscut => throw miscut
      | .ok (_, rest) =>
        let value ← unescapeAt rest
        return value.map (front ++ denoted.toList ++ ·)
termination_by text.length
decreasing_by exact length_of_cut _hcut (by omega)

section

variable {test : Char → Bool} {text : List Char}

theorem takeWhile_of_not_any (hnone : text.any test = false) : text.takeWhile (!test ·) = text := by
  rw [List.takeWhile_eq_self_iff]
  intro c hc
  have hfails := List.any_eq_false.mp hnone c hc
  simpa using hfails

theorem offsetOf?_getD :
    (offsetOf? test text).getD (byteSize text) = byteSize (text.takeWhile (!test ·)) := by
  unfold offsetOf?
  split
  · rfl
  · next hnone => rw [takeWhile_of_not_any (Bool.eq_false_iff.mpr hnone), Option.getD_none]

end

theorem utf8Size_of_ascii {c : Char} (hc : c.toNat < 128) : c.utf8Size = 1 :=
  Char.utf8Size_eq_one_iff.mpr (UInt32.le_iff_toNat_le.mpr (Nat.le_of_lt_succ hc))

theorem byteSize_of_ascii {chars : List Char} (hchars : ∀ c ∈ chars, c.toNat < 128) :
    byteSize chars = chars.length := by
  induction chars with
  | nil => rfl
  | cons c rest ih =>
      obtain ⟨hc, hrest⟩ := List.forall_mem_cons.mp hchars
      rw [byteSize_cons, utf8Size_of_ascii hc, ih hrest, List.length_cons, Nat.add_comm]

theorem cut_takeWhile (test : Char → Bool) (text : List Char) :
    cut (byteSize (text.takeWhile test)) text = .ok (text.takeWhile test, text.dropWhile test) := by
  have hcut := cut_append (text.takeWhile test) (text.dropWhile test)
  rwa [List.takeWhile_append_dropWhile] at hcut

theorem cut_mark {c : Char} (hc : c.toNat < 128) (rest : List Char) :
    cut 1 (c :: rest) = .ok ([c], rest) := by
  have hcut := cut_append [c] rest
  rwa [byteSize_cons, utf8Size_of_ascii hc, byteSize_nil] at hcut

theorem numericEscapeAt_eq {base : Nat} (hbase : 0 < base) (text : List Char) :
    numericEscapeAt base text = .ok (numericEscape? base text) := by
  have hdigits : byteSize (text.takeWhile (Lexeme.isDigitIn base)) =
      (text.takeWhile (Lexeme.isDigitIn base)).length :=
    byteSize_of_ascii fun c hc => toNat_lt_of_isDigitIn (List.mem_takeWhile_imp hc)
  have hcut := cut_takeWhile (Lexeme.isDigitIn base) text
  unfold numericEscapeAt numericEscape?
  simp only [offsetOf?_getD, Bool.not_not, hdigits] at hcut ⊢
  rw [hcut]
  generalize text.takeWhile (Lexeme.isDigitIn base) = digits
  cases digits with
  | nil => rfl
  | cons c rest =>
      change Except.ok _ = _
      rw [word?_eq hbase, checked_bind_charOfCode?]

theorem byteSize_of_numericEscape? {base : Nat} {text : List Char} {denoted : Char} {length : Nat}
    (hnumber : numericEscape? base text = some (denoted, length)) :
    byteSize (text.take length) = length := by
  have htake : length = (text.takeWhile (Lexeme.isDigitIn base)).length := by
    unfold numericEscape? at hnumber
    split at hnumber
    · cases hnumber
    · obtain ⟨_, -, heq⟩ := Option.map_eq_some_iff.mp hnumber
      exact (Prod.mk.inj heq).2.symm
  have hbegins : text.take length = text.takeWhile (Lexeme.isDigitIn base) := by
    rw [htake]
    exact (List.prefix_iff_eq_take.mp (List.takeWhile_prefix _)).symm
  rw [hbegins, htake]
  exact byteSize_of_ascii fun c hc => toNat_lt_of_isDigitIn (List.mem_takeWhile_imp hc)

def inBytes (text : List Char) (escape : Option Char × Nat) : Option Char × Nat :=
  (escape.1, byteSize (text.take escape.2))

theorem offsetOf?_not {test : Char → Bool} (text : List Char) :
    offsetOf? (!test ·) text =
      if text.dropWhile test = [] then none else some (byteSize (text.takeWhile test)) := by
  have hany : text.any (!test ·) = true ↔ text.dropWhile test ≠ [] := by
    rw [ne_eq, List.dropWhile_eq_nil_iff, List.any_eq_true]
    push Not
    simp
  unfold offsetOf?
  by_cases hnil : text.dropWhile test = []
  · rw [if_pos hnil, if_neg (fun htrue => hany.mp htrue hnil)]
  · rw [if_neg hnil, if_pos (hany.mpr hnil)]
    simp only [Bool.not_not]

/-- White space may take more than a byte a character, and the backslash behind it takes one. -/
theorem gapAt_eq (text : List Char) :
    gapAt text = .ok (if (text.drop (runLength isBlank text)).head? = some '\\' then
      some (byteSize (text.take (runLength isBlank text + 1))) else none) := by
  rw [gapAt, offsetOf?_not, drop_runLength]
  cases hrest : text.dropWhile isBlank with
  | nil => rfl
  | cons c rest =>
      rw [if_neg (List.cons_ne_nil c rest)]
      change (cut _ text >>= fun parts => pure _) = _
      rw [cut_takeWhile, hrest, List.head?_cons]
      change Except.ok _ = _
      by_cases hend : c = '\\'
      · subst hend
        have hsplit : text.takeWhile isBlank ++ ['\\'] ++ rest = text := by
          rw [List.append_assoc, List.singleton_append, ← hrest, List.takeWhile_append_dropWhile]
        have htake : text.take (runLength isBlank text + 1) = text.takeWhile isBlank ++ ['\\'] :=
          calc
            text.take (runLength isBlank text + 1) =
                (text.takeWhile isBlank ++ ['\\'] ++ rest).take
                  (text.takeWhile isBlank ++ ['\\']).length := by
              rw [hsplit, List.length_append, runLength, List.length_singleton]
            _ = text.takeWhile isBlank ++ ['\\'] := List.take_left
        have hmark : '\\'.utf8Size = 1 := utf8Size_of_ascii (by decide)
        rw [htake, byteSize_append, byteSize_cons, hmark, byteSize_nil]
        rfl
      · simp [hend]

theorem asciiNames_ascii {entry : String × Nat} (hentry : entry ∈ asciiNames) {c : Char}
    (hc : c ∈ entry.1.toList) : c.toNat < 128 := by
  have hall : asciiNames.all (fun entry => entry.1.toList.all (·.toNat < 128)) = true := by decide
  exact of_decide_eq_true (List.all_eq_true.mp (List.all_eq_true.mp hall entry hentry) c hc)

/-- An escape takes as many bytes as the characters that it takes. -/
theorem escapeAt_eq (text : List Char) :
    escapeAt text = .ok ((escape? text).map (inBytes text)) := by
  cases text with
  | nil => rfl
  | cons c rest =>
      cases hsingle : singleEscape? c with
      | some denoted => simp [escapeAt, escape?, hsingle, inBytes]
      | none =>
          by_cases hempty : c = '&'
          · subst hempty
            simp [escapeAt, escape?, hsingle, inBytes]
            rfl
          by_cases hcaret : c = '^'
          · subst hcaret
            have hascii : '^'.toNat < 128 := by decide
            simp only [escapeAt, escape?, hsingle, if_neg hempty, if_true, cut_mark hascii]
            cases rest with
            | nil => rfl
            | cons control rest =>
                change Except.ok _ = _
                rw [List.head?_cons, Option.filter_some]
                by_cases hcontrol : '@' ≤ control ∧ control ≤ '_'
                · have hbelow : control.toNat < 128 := lt_of_le_of_lt hcontrol.2 (by decide)
                  simp [inBytes, hcontrol, utf8Size_of_ascii hbelow, utf8Size_of_ascii hascii]
                · simp [hcontrol]
          by_cases hmark : c = 'x' ∨ c = 'o'
          · have hascii : c.toNat < 128 := by rcases hmark with rfl | rfl <;> decide
            have hbase : 0 < if c = 'x' then 16 else 8 := by split <;> decide
            simp only [escapeAt, escape?, hsingle, if_neg hempty, if_neg hcaret, if_pos hmark,
              cut_mark hascii]
            change (numericEscapeAt _ rest >>= fun number => pure _) = _
            rw [numericEscapeAt_eq hbase]
            change Except.ok _ = _
            cases hnumber : numericEscape? (if c = 'x' then 16 else 8) rest with
            | none => rfl
            | some number =>
                have hsize := byteSize_of_numericEscape? hnumber
                simp [inBytes, utf8Size_of_ascii hascii, hsize, Nat.add_comm]
          by_cases hdigit : isDecimalDigit c = true
          · simp only [escapeAt, escape?, hsingle, if_neg hempty, if_neg hcaret, if_neg hmark,
              if_pos hdigit, numericEscapeAt_eq (show 0 < 10 by decide)]
            change Except.ok _ = _
            cases hnumber : numericEscape? 10 (c :: rest) with
            | none => rfl
            | some number =>
                have hsize := byteSize_of_numericEscape? hnumber
                simp [inBytes, hsize]
          by_cases hblank : isBlank c = true
          · simp only [escapeAt, escape?, hsingle, if_neg hempty, if_neg hcaret, if_neg hmark,
              if_neg hdigit, if_pos hblank, gapAt_eq]
            change Except.ok _ = _
            split <;> rfl
          · simp only [escapeAt, escape?, hsingle, if_neg hempty, if_neg hcaret, if_neg hmark,
              if_neg hdigit, if_neg hblank]
            cases hfind : controlNames.find? fun entry => entry.1.toList.isPrefixOf (c :: rest) with
            | none => rfl
            | some entry =>
                obtain ⟨hname, hbegins, -⟩ := longest_of_find? hfind
                have hsize := byteSize_of_ascii fun d (hd : d ∈ entry.1.toList) =>
                  asciiNames_ascii hname hd
                have htake := List.prefix_iff_eq_take.mp hbegins
                rw [String.length_toList] at htake hsize
                simp only [Option.map_some, inBytes, ← htake, hsize]
                rw [← byteSize_toList, hsize]

/-! ## Texts -/

theorem unescape?_front {front : List Char} (hfront : '\\' ∉ front) (rest : List Char) :
    unescape? (front ++ rest) = (unescape? rest).map (front ++ ·) := by
  induction front with
  | nil => simp
  | cons c front ih =>
      obtain ⟨hc, hfront⟩ := List.ne_and_not_mem_of_not_mem_cons hfront
      rw [List.cons_append, unescape?_plain (Ne.symm hc), ih hfront, Option.map_map]
      rfl

theorem exists_front (text : List Char) :
    ('\\' ∉ text ∧ offsetOf? (· == '\\') text = none) ∨
      ∃ front behind, '\\' ∉ front ∧ text = front ++ '\\' :: behind ∧
        offsetOf? (· == '\\') text = some (byteSize front) := by
  by_cases hmem : '\\' ∈ text
  · obtain ⟨front, behind, rfl, hfront⟩ := List.eq_append_cons_of_mem hmem
    refine .inr ⟨front, behind, hfront, rfl, ?_⟩
    have hany : (front ++ '\\' :: behind).any (· == '\\') = true := by simp
    have htake : (front ++ '\\' :: behind).takeWhile (!· == '\\') = front := by
      rw [List.takeWhile_append_of_pos]
      · simp
      · intro c hc
        simpa using fun heq : c = '\\' => hfront (heq ▸ hc)
    rw [offsetOf?, if_pos hany, htake]
  · have hany : text.any (· == '\\') = false := by
      rw [List.any_eq_false]
      intro c hc hmark
      exact hmem (beq_iff_eq.mp hmark ▸ hc)
    exact .inl ⟨hmem, by rw [offsetOf?, hany]; rfl⟩

/-- Decoding by byte offsets never cuts a character, and gives what decoding by characters gives. -/
theorem unescapeAt_eq (text : List Char) : unescapeAt text = .ok (unescape? text) := by
  induction hlength : text.length using Nat.strong_induction_on generalizing text with
  | h length ih =>
      rcases exists_front text with ⟨hplain, hnone⟩ | ⟨front, behind, hplain, rfl, hsome⟩
      · have hdecode := unescape?_front hplain []
        rw [List.append_nil, unescape?, Option.map_some, List.append_nil] at hdecode
        rw [unescapeAt, hnone, hdecode]
      have hmark : '\\'.utf8Size = 1 := utf8Size_of_ascii (by decide)
      have hbehind : cut (byteSize front + 1) (front ++ '\\' :: behind) =
          .ok (front ++ ['\\'], behind) := by
        have hcut := cut_append (front ++ ['\\']) behind
        rwa [byteSize_append, byteSize_cons, hmark, byteSize_nil, List.append_assoc] at hcut
      unfold unescapeAt
      simp only [hsome, cut_append, hbehind, escapeAt_eq, bind, Except.bind, pure, Except.pure]
      rw [unescape?_front hplain]
      cases hescape : escape? behind with
      | none =>
          rw [unescape?, if_pos rfl, hescape]
          rfl
      | some escape =>
          obtain ⟨denoted, count⟩ := escape
          obtain ⟨body, tail, rfl, rfl, -⟩ := escape_of_escape? hescape
          rw [unescape?_escape body hescape]
          simp only [Option.map_some, inBytes, List.take_left]
          have hrest : cut (byteSize front + 1 + byteSize body) (front ++ '\\' :: (body ++ tail)) =
              .ok (front ++ '\\' :: body, tail) := by
            have hcut := cut_append (front ++ '\\' :: body) tail
            rw [byteSize_append, byteSize_cons, hmark] at hcut
            simpa [Nat.add_assoc] using hcut
          have hless : tail.length < length := by
            rw [← hlength]
            simp
            omega
          split
          · next hfail =>
              rw [hrest] at hfail
              cases hfail
          · next hcut =>
              rw [hrest] at hcut
              obtain ⟨-, rfl⟩ := Prod.mk.inj (Except.ok.inj hcut)
              rw [ih _ hless tail rfl]
              simp [Function.comp_def]

/-- A value comes out exactly of the texts that the language gives one to, and decoding by byte
offsets, in words, gives the same. -/
theorem unescape?_exact (text : List Char) :
    (∀ value, unescape? text = some value ↔ Decodes text value) ∧
      unescapeAt text = .ok (unescape? text) := by
  constructor
  · intro value
    exact unescape?_eq_some_iff
  · exact unescapeAt_eq text

end Text

end LosslessTree
