/-
**Request paths and route tables.**

A client puts a path together as a string; the URL parser cuts it into segments, and a route table
looks for a pattern that fits the segments.  The segments that a pattern captures are
percent-decoded for the handler.

The parser trims blanks and controls from the end of its input and drops tabs and line ends; the
path ends at the first `?` or `#` and is cut at slashes, as which backslashes count, too; then the
dot segments are resolved.  All this keeps a segment as it was written only if the segment is
*plain*.

Main definitions:

* `Http.segments` — the segments of a path;
* `Http.percentDecode` — the string that a segment stands for;
* `Http.Pattern`, `Http.capture`, `Http.lookup` — route tables;
* `Http.Plain` — a segment that is spliced into a path and arrives as it was.

Main results:

* `Http.segments_join` — **plain segments arrive** as they were written;
* `Http.plain_of_segments` — **what arrives unchanged has been plain**, by counting bytes.
-/

import Mathlib.Data.List.DropRight

set_option relaxedAutoImplicit false
set_option autoImplicit false

namespace Http

/-! ### The segments of a path -/

/-- What is trimmed from the end of the input: controls and the blank. -/
def isTrimmed (c : Char) : Bool := decide (c.toNat ≤ 0x20)

/-- What is dropped wherever it stands. -/
def isDropped (c : Char) : Bool := c == '\t' || c == '\n' || c == '\r'

/-- What ends the path. -/
def endsPath (c : Char) : Bool := c == '?' || c == '#'

/-- What separates the segments. -/
def isSlash (c : Char) : Bool := c == '/' || c == '\\'

/-- The characters of the path that are looked at. -/
def clean (l : List Char) : List Char :=
  ((l.rdropWhile isTrimmed).filter fun c => !isDropped c).takeWhile fun c => !endsPath c

/-- The segment stands for the directory itself. -/
def isSingleDot (s : List Char) : Bool :=
  let s := s.map Char.toLower
  s == ".".toList || s == "%2e".toList

/-- The segment stands for the directory above. -/
def isDoubleDot (s : List Char) : Bool :=
  let s := s.map Char.toLower
  s == "..".toList || s == ".%2e".toList || s == "%2e.".toList || s == "%2e%2e".toList

/-- Resolve the dot segments; the segments so far are in `acc`, the last one first. -/
def removeDots : List (List Char) → List (List Char) → List (List Char)
  | acc, [] => acc.reverse
  | acc, s :: rest =>
    if isDoubleDot s then
      if rest.isEmpty then ([] :: acc.tail).reverse else removeDots acc.tail rest
    else if isSingleDot s then
      if rest.isEmpty then ([] :: acc).reverse else removeDots acc rest
    else removeDots (s :: acc) rest

/-- The segments of a path that begins with a slash. -/
def segments (path : List Char) : List (List Char) :=
  removeDots [] ((clean path).splitOnP isSlash).tail

/-! ### Percent-encoding -/

/-- The value of a hexadecimal digit. -/
def hexValue (c : Char) : Option ℕ :=
  if c.isDigit then some (c.toNat - '0'.toNat)
  else if 'a' ≤ c ∧ c ≤ 'f' then some (c.toNat - 'a'.toNat + 10)
  else if 'A' ≤ c ∧ c ≤ 'F' then some (c.toNat - 'A'.toNat + 10)
  else none

/-- The byte that the three characters encode. -/
def escape (a b c : Char) : Option UInt8 :=
  if a = '%' then
    match hexValue b, hexValue c with
    | some x, some y => some (UInt8.ofNat (x * 16 + y))
    | _, _ => none
  else none

/-- The bytes of a segment: three characters that encode a byte are replaced by it. -/
def decodeBytes : List Char → List UInt8
  | a :: b :: c :: l =>
    match escape a b c with
    | some x => x :: decodeBytes l
    | none => String.utf8EncodeChar a ++ decodeBytes (b :: c :: l)
  | l => l.flatMap String.utf8EncodeChar

/-- Some three characters of the segment encode a byte. -/
def hasEscape : List Char → Bool
  | a :: b :: c :: l => (escape a b c).isSome || hasEscape (b :: c :: l)
  | _ => false

/-- The string that a segment stands for, if its bytes are text. -/
def percentDecode (s : List Char) : Option String :=
  String.fromUTF8? (decodeBytes s).toByteArray

/-! ### Route tables -/

/-- A segment of a pattern. -/
inductive Pattern
  | lit (s : String)
  | param
  deriving DecidableEq, Repr

/-- The segments that are captured, if the pattern fits; what is captured is not empty. -/
def capture : List Pattern → List (List Char) → Option (List (List Char))
  | [], [] => some []
  | .lit t :: ps, s :: ss => if s = t.toList then capture ps ss else none
  | .param :: ps, s :: ss => if s.isEmpty then none else (capture ps ss).map (s :: ·)
  | _, _ => none

/-- The methods of the API. -/
inductive Method
  | get | post | put | delete
  deriving DecidableEq, Repr

/-- A route: its pattern, and a handler for some methods. -/
structure Route (H : Type*) where
  path : List Pattern
  handlers : List (Method × H)

/-- The handler of a request, with what it gets to see of the path. -/
def lookup {H : Type*} (table : List (Route H)) (m : Method) (ss : List (List Char)) :
    Option (H × List (List Char)) :=
  (table.findSome? fun r => (capture r.path ss).map fun cs => (r.handlers, cs)).bind fun p =>
    (p.1.lookup m).map fun h => (h, p.2)

/-- A pattern with the segments that it captures. -/
def fill : List Pattern → List (List Char) → List (List Char)
  | .lit t :: ps, cs => t.toList :: fill ps cs
  | .param :: ps, c :: cs => c :: fill ps cs
  | _, _ => []

/-- What fits a pattern is the pattern with what it captures. -/
theorem capture_some {ps : List Pattern} {ss cs : List (List Char)}
    (h : capture ps ss = some cs) : ss = fill ps cs ∧ ∀ c ∈ cs, c ≠ [] := by
  induction ps, ss using capture.induct generalizing cs with
  | case1 =>
      rw [capture, Option.some_inj] at h
      exact h ▸ ⟨rfl, fun c hc => absurd hc List.not_mem_nil⟩
  | case2 t ps ss ih =>
      rw [capture, if_pos rfl] at h
      obtain ⟨rfl, hne⟩ := ih h
      exact ⟨rfl, hne⟩
  | case3 t ps s ss hs =>
      rw [capture, if_neg hs] at h
      cases h
  | case4 ps s ss hs =>
      rw [capture, if_pos hs] at h
      cases h
  | case5 ps s ss hs ih =>
      rw [capture, if_neg hs] at h
      obtain ⟨cs', hcs', rfl⟩ := Option.map_eq_some_iff.1 h
      obtain ⟨rfl, hne⟩ := ih hcs'
      refine ⟨rfl, fun c hc => ?_⟩
      rcases List.mem_cons.1 hc with rfl | hc
      · simpa using hs
      · exact hne c hc
  | case6 ps ss h₁ h₂ h₃ =>
      rw [capture] at h
      · cases h
      all_goals assumption

/-- A request that has a handler fits a route. -/
theorem lookup_some {H : Type*} {table : List (Route H)} {m : Method} {ss cs : List (List Char)}
    {h : H} (hl : lookup table m ss = some (h, cs)) :
    ∃ r ∈ table, r.handlers.lookup m = some h ∧ ss = fill r.path cs ∧ ∀ c ∈ cs, c ≠ [] := by
  obtain ⟨p, hp, hm⟩ := Option.bind_eq_some_iff.1 hl
  obtain ⟨r, hr, hc⟩ := List.exists_of_findSome?_eq_some hp
  obtain ⟨cs', hcs', rfl⟩ := Option.map_eq_some_iff.1 hc
  obtain ⟨h', hh, heq⟩ := Option.map_eq_some_iff.1 hm
  cases heq
  exact ⟨r, hr, hh, capture_some hcs'⟩

/-! ### Plain segments -/

/-- The segment is kept as it is. -/
structure Plain (s : List Char) : Prop where
  ne_nil : s ≠ []
  kept : ∀ c ∈ s, isSlash c = false ∧ endsPath c = false ∧ isDropped c = false
  singleDot : isSingleDot s = false
  doubleDot : isDoubleDot s = false
  escape : hasEscape s = false

instance (s : List Char) : Decidable (Plain s) :=
  -- the characters of the segment are looked at, not all there are
  haveI : Decidable (∀ c ∈ s, isSlash c = false ∧ endsPath c = false ∧ isDropped c = false) :=
    List.decidableBAll _ s
  decidable_of_iff (s ≠ [] ∧ (∀ c ∈ s, isSlash c = false ∧ endsPath c = false ∧
      isDropped c = false) ∧ isSingleDot s = false ∧ isDoubleDot s = false ∧ hasEscape s = false)
    ⟨fun ⟨h₁, h₂, h₃, h₄, h₅⟩ => ⟨h₁, h₂, h₃, h₄, h₅⟩,
      fun ⟨h₁, h₂, h₃, h₄, h₅⟩ => ⟨h₁, h₂, h₃, h₄, h₅⟩⟩

/-- The text does not end with what is trimmed. -/
def EndsPlain (s : List Char) : Prop := ∀ c ∈ s.getLast?, isTrimmed c = false

instance (s : List Char) : Decidable (EndsPlain s) :=
  Option.decidableForallMem s.getLast?

/-! ### Bytes -/

/-- The number of bytes of a text. -/
def size : List Char → ℕ
  | [] => 0
  | c :: l => c.utf8Size + size l

@[simp] theorem size_nil : size [] = 0 := rfl

@[simp] theorem size_cons (c : Char) (l : List Char) : size (c :: l) = c.utf8Size + size l := rfl

theorem size_append (l l' : List Char) : size (l ++ l') = size l + size l' := by
  induction l with
  | nil => rw [List.nil_append, size_nil, Nat.zero_add]
  | cons c l ih => rw [List.cons_append, size_cons, size_cons, ih, Nat.add_assoc]

theorem length_encode (l : List Char) : (l.flatMap String.utf8EncodeChar).length = size l := by
  induction l with
  | nil => rfl
  | cons c l ih =>
      rw [List.flatMap_cons, List.length_append, ih, String.length_utf8EncodeChar, size_cons]

theorem size_le_of_sublist {l l' : List Char} (h : l.Sublist l') : size l ≤ size l' := by
  induction h with
  | slnil => exact le_rfl
  | cons c h ih =>
      rw [size_cons]
      exact ih.trans (Nat.le_add_left _ _)
  | cons_cons c h ih =>
      rw [size_cons, size_cons]
      exact Nat.add_le_add_left ih _

/-- A part of a text that has all its bytes is the whole text. -/
theorem eq_of_sublist_of_size {l l' : List Char} (h : l.Sublist l') (hs : size l' ≤ size l) :
    l = l' := by
  induction h with
  | slnil => rfl
  | @cons l l' c h ih =>
      have hc := Char.utf8Size_pos c
      have hle := size_le_of_sublist h
      rw [size_cons] at hs
      omega
  | cons_cons c h ih =>
      rw [size_cons, size_cons] at hs
      rw [ih (Nat.le_of_add_le_add_left hs)]

/-! ### Decoding -/

/-- A segment without escapes is made of the bytes of its characters. -/
theorem decodeBytes_of_not_hasEscape {s : List Char} (h : hasEscape s = false) :
    decodeBytes s = s.flatMap String.utf8EncodeChar := by
  induction s using hasEscape.induct with
  | case1 a b c l ih =>
      rw [hasEscape, Bool.or_eq_false_iff, Option.isSome_eq_false_iff,
        Option.isNone_iff_eq_none] at h
      rw [decodeBytes, h.1]
      dsimp only
      rw [ih h.2]
      rfl
  | case2 l hl => rw [decodeBytes.eq_2 l hl]

/-- An escape is shorter than the three characters it is written with. -/
theorem decodeBytes_length (s : List Char) :
    (decodeBytes s).length ≤ size s ∧
      (hasEscape s = true → (decodeBytes s).length < size s) := by
  induction s using decodeBytes.induct with
  | case1 a b c l x hx ih =>
      have ha := Char.utf8Size_pos a
      have hb := Char.utf8Size_pos b
      rw [decodeBytes, hx]
      simp only [List.length_cons, size_cons]
      have hc := Char.utf8Size_pos c
      have hl := ih.1
      constructor
      · omega
      · intro
        omega
  | case2 a b c l hx ih =>
      rw [decodeBytes, hx]
      simp only [List.length_append, String.length_utf8EncodeChar]
      rw [size_cons, hasEscape, hx, Option.isSome_none, Bool.false_or]
      exact ⟨Nat.add_le_add_left ih.1 _, fun h => Nat.add_lt_add_left (ih.2 h) _⟩
  | case3 l hl =>
      rw [decodeBytes.eq_2 l hl, length_encode]
      refine ⟨le_rfl, fun h => ?_⟩
      rw [hasEscape.eq_2 l hl] at h
      cases h

theorem percentDecode_of_not_hasEscape {s : List Char} (h : hasEscape s = false) :
    percentDecode s = some (String.ofList s) := by
  have hb : (decodeBytes s).toByteArray = (String.ofList s).toByteArray := by
    rw [decodeBytes_of_not_hasEscape h, String.toByteArray_ofList, List.utf8Encode]
  rw [percentDecode, hb, String.fromUTF8?, dif_pos (String.ofList s).isValidUTF8]
  rfl

/-- What a segment stands for has no more bytes than the segment; if it has as many, it is the
segment itself. -/
theorem percentDecode_size {s : List Char} {t : String} (h : percentDecode s = some t) :
    size t.toList ≤ size s ∧
      (size s ≤ size t.toList → hasEscape s = false ∧ t = String.ofList s) := by
  have hbytes : size t.toList = (decodeBytes s).length := by
    unfold percentDecode String.fromUTF8? at h
    split at h
    · rename_i hv
      rw [Option.some_inj] at h
      have ht : t.toByteArray = (decodeBytes s).toByteArray := congrArg String.toByteArray h.symm
      rw [← length_encode, ← List.size_toByteArray, ← List.size_toByteArray, ← ht]
      change t.toList.utf8Encode.size = _
      rw [String.utf8Encode_toList]
    · cases h
  obtain ⟨hle, hlt⟩ := decodeBytes_length s
  refine ⟨hbytes ▸ hle, fun hge => ?_⟩
  have hno : hasEscape s = false := by
    cases hs : hasEscape s with
    | false => rfl
    | true =>
        have := hlt hs
        omega
  rw [percentDecode_of_not_hasEscape hno, Option.some_inj] at h
  exact ⟨hno, h.symm⟩

/-! ### A plain segment arrives -/

/-- The path with the given segments. -/
def join (ss : List (List Char)) : List Char := ss.flatMap ('/' :: ·)

theorem join_cons (s : List Char) (ss : List (List Char)) :
    join (s :: ss) = '/' :: (s ++ join ss) := rfl

theorem join_append (ss ss' : List (List Char)) : join (ss ++ ss') = join ss ++ join ss' :=
  List.flatMap_append

/-- The segments of a joined path, the one before the first slash included. -/
theorem splitOnP_join {s : List Char} {ss : List (List Char)}
    (hs : ∀ c ∈ s, isSlash c = false) (hss : ∀ s ∈ ss, ∀ c ∈ s, isSlash c = false) :
    (s ++ join ss).splitOnP isSlash = s :: ss := by
  induction ss generalizing s with
  | nil =>
      change (s ++ []).splitOnP isSlash = _
      rw [List.append_nil, List.splitOnP_eq_singleton hs]
  | cons t ss ih =>
      rw [join_cons, List.splitOnP_append_cons_of_forall_mem hs _ rfl,
        ih (hss t List.mem_cons_self) fun s h => hss s (List.mem_cons_of_mem _ h)]

theorem removeDots_of_no_dots {acc ss : List (List Char)}
    (h : ∀ s ∈ ss, isDoubleDot s = false ∧ isSingleDot s = false) :
    removeDots acc ss = acc.reverse ++ ss := by
  induction ss generalizing acc with
  | nil => rw [removeDots, List.append_nil]
  | cons s ss ih =>
      have hs := h s List.mem_cons_self
      rw [removeDots, hs.1, hs.2, if_neg Bool.false_ne_true, if_neg Bool.false_ne_true,
        ih fun t ht => h t (List.mem_cons_of_mem _ ht), List.reverse_cons, List.append_assoc]
      rfl

theorem rdropWhile_eq_self_iff_endsPlain {l : List Char} :
    l.rdropWhile isTrimmed = l ↔ EndsPlain l := by
  rw [List.rdropWhile_eq_self_iff]
  constructor
  · intro h c hc
    have hl : l ≠ [] := by
      rintro rfl
      cases hc
    rw [List.getLast?_eq_some_getLast hl, Option.mem_some_iff] at hc
    exact hc ▸ Bool.eq_false_iff.2 (h hl)
  · intro h hl
    exact Bool.eq_false_iff.1 (h _ (List.getLast?_eq_some_getLast hl))

theorem endsPlain_append {l l' : List Char} (h : l' ≠ []) :
    EndsPlain (l ++ l') ↔ EndsPlain l' := by
  unfold EndsPlain
  rw [List.getLast?_append_of_ne_nil _ h]

/-- A path ends as its last segment does. -/
theorem endsPlain_join {A : List (List Char)} {s : List Char} (hs : s ≠ []) :
    EndsPlain (join (A ++ [s])) ↔ EndsPlain s := by
  have hpath : join (A ++ [s]) = (join A ++ ['/']) ++ s := by simp [join]
  rw [hpath, endsPlain_append hs]

/-- Nothing is cut off a path whose characters are kept and whose end is. -/
theorem clean_of_kept {l : List Char} (hend : EndsPlain l)
    (h : ∀ c ∈ l, endsPath c = false ∧ isDropped c = false) : clean l = l := by
  unfold clean
  rw [rdropWhile_eq_self_iff_endsPlain.2 hend,
    List.filter_eq_self.2 fun c hc => by rw [(h c hc).2]; rfl,
    List.takeWhile_eq_self_iff.2 fun c hc => by rw [(h c hc).1]; rfl]

/-- **Plain segments arrive as they were written.** -/
theorem segments_join {ss : List (List Char)} (h : ∀ s ∈ ss, Plain s)
    (hend : EndsPlain (join ss)) : segments (join ss) = ss := by
  have hclean : clean (join ss) = join ss := by
    refine clean_of_kept hend fun c hc => ?_
    obtain ⟨s, hs, hc⟩ := List.mem_flatMap.1 hc
    rcases List.mem_cons.1 hc with rfl | hc
    · exact ⟨rfl, rfl⟩
    · exact ((h s hs).kept c hc).2
  have hsplit : (join ss).splitOnP isSlash = [] :: ss :=
    splitOnP_join (s := []) (fun c hc => absurd hc List.not_mem_nil)
      fun s hs c hc => ((h s hs).kept c hc).1
  rw [segments, hclean, hsplit, List.tail_cons,
    removeDots_of_no_dots fun s hs => ⟨(h s hs).doubleDot, (h s hs).singleDot⟩]
  rfl

theorem hasEscape_of_notMem {s : List Char} (h : '%' ∉ s) : hasEscape s = false := by
  induction s using hasEscape.induct with
  | case1 a b c l ih =>
      have ha : a ≠ '%' := fun he => h (he ▸ List.mem_cons_self)
      rw [hasEscape, escape, if_neg ha, ih fun hl => h (List.mem_cons_of_mem _ hl)]
      rfl
  | case2 l hl => exact hasEscape.eq_2 l hl

theorem toLower_of_isDigit {c : Char} (h : c.isDigit = true) : c.toLower = c := by
  unfold Char.toLower
  refine dif_neg fun hupper => ?_
  have hdigit : c.val ≤ '9'.val := by
    rw [Char.isDigit, Bool.and_eq_true, decide_eq_true_eq, decide_eq_true_eq] at h
    exact h.2
  exact absurd (UInt32.le_trans hupper.1 hdigit) (by decide)

/-- Digits are kept. -/
theorem plain_of_digits {s : List Char} (hs : s ≠ []) (h : ∀ c ∈ s, c.isDigit = true) :
    Plain s := by
  have hlower : s.map Char.toLower = s := by
    rw [List.map_congr_left fun c hc => toLower_of_isDigit (h c hc), List.map_id']
  have hnot : ∀ t : List Char, (∃ c ∈ t, c.isDigit = false) → (s == t) = false := by
    rintro t ⟨c, hc, hd⟩
    refine beq_eq_false_iff_ne.2 fun heq => ?_
    rw [h c (heq ▸ hc)] at hd
    cases hd
  have hchar : ∀ c ∈ s, ∀ d : Char, d.isDigit = false → (c == d) = false := by
    intro c hc d hd
    refine beq_eq_false_iff_ne.2 fun heq => ?_
    rw [← heq, h c hc] at hd
    cases hd
  refine ⟨hs, fun c hc => ⟨?_, ?_, ?_⟩, ?_, ?_, hasEscape_of_notMem fun hp => ?_⟩
  · rw [isSlash, hchar c hc _ rfl, hchar c hc _ rfl]
    rfl
  · rw [endsPath, hchar c hc _ rfl, hchar c hc _ rfl]
    rfl
  · rw [isDropped, hchar c hc _ rfl, hchar c hc _ rfl, hchar c hc _ rfl]
    rfl
  · rw [isSingleDot, hlower, hnot _ ⟨'.', by decide, rfl⟩, hnot _ ⟨'%', by decide, rfl⟩]
    rfl
  · rw [isDoubleDot, hlower, hnot _ ⟨'.', by decide, rfl⟩, hnot _ ⟨'.', by decide, rfl⟩,
      hnot _ ⟨'%', by decide, rfl⟩, hnot _ ⟨'%', by decide, rfl⟩]
    rfl
  · exact absurd (h '%' hp) (by decide)

/-! ### What arrives has been plain -/

/-- The bytes of some segments, with the slash before each. -/
def weight : List (List Char) → ℕ
  | [] => 0
  | s :: ss => size s + 1 + weight ss

@[simp] theorem weight_nil : weight [] = 0 := rfl

@[simp] theorem weight_cons (s : List Char) (ss : List (List Char)) :
    weight (s :: ss) = size s + 1 + weight ss := rfl

theorem weight_append (ss ss' : List (List Char)) :
    weight (ss ++ ss') = weight ss + weight ss' := by
  induction ss with
  | nil => rw [List.nil_append, weight_nil, Nat.zero_add]
  | cons s ss ih =>
      rw [List.cons_append, weight_cons, weight_cons, ih]
      omega

theorem size_join (ss : List (List Char)) : size (join ss) = weight ss := by
  induction ss with
  | nil => rfl
  | cons s ss ih =>
      rw [join_cons, size_cons, size_append, ih, weight_cons]
      have hslash : Char.utf8Size '/' = 1 := rfl
      omega

/-- Cutting a text into segments keeps its bytes. -/
theorem weight_splitOnP (l : List Char) : weight (l.splitOnP isSlash) = size l + 1 := by
  induction l with
  | nil => rfl
  | cons c l ih =>
      rw [List.splitOnP_cons_eq_if_modifyHead, size_cons]
      by_cases hc : isSlash c = true
      · have hone : c.utf8Size = 1 := by
          rw [isSlash, Bool.or_eq_true, beq_iff_eq, beq_iff_eq] at hc
          rcases hc with rfl | rfl
          · rfl
          · rfl
        rw [if_pos hc, weight_cons, size_nil, ih]
        omega
      · rw [if_neg hc]
        cases hs : l.splitOnP isSlash with
        | nil => exact absurd hs (List.splitOnP_ne_nil _ _)
        | cons s ss =>
            rw [hs, weight_cons] at ih
            rw [List.modifyHead_cons, weight_cons, size_cons]
            omega

theorem weight_reverse (ss : List (List Char)) : weight ss.reverse = weight ss := by
  induction ss with
  | nil => rfl
  | cons s ss ih =>
      rw [List.reverse_cons, weight_append, ih, weight_cons, weight_cons, weight_nil, Nat.add_zero,
        Nat.add_comm]

theorem weight_tail_le (ss : List (List Char)) : weight ss.tail ≤ weight ss := by
  cases ss with
  | nil => exact le_rfl
  | cons s ss => exact Nat.le_add_left _ _

theorem size_pos {s : List Char} (h : s ≠ []) : 0 < size s := by
  cases s with
  | nil => exact absurd rfl h
  | cons c s =>
      rw [size_cons]
      exact Nat.lt_of_lt_of_le (Char.utf8Size_pos c) (Nat.le_add_right _ _)

/-- Resolving dot segments loses bytes, unless there are none. -/
theorem removeDots_weight (acc ss : List (List Char)) :
    weight (removeDots acc ss) ≤ weight acc + weight ss ∧
      (weight acc + weight ss ≤ weight (removeDots acc ss) →
        ∀ s ∈ ss, isDoubleDot s = false ∧ isSingleDot s = false) := by
  induction ss generalizing acc with
  | nil =>
      rw [removeDots, weight_reverse]
      exact ⟨le_rfl, fun _ s hs => absurd hs List.not_mem_nil⟩
  | cons s rest ih =>
      have htail := weight_tail_le acc
      rw [removeDots, weight_cons]
      split
      · rename_i hdd
        have hs : 0 < size s := size_pos fun h => by
          rw [h] at hdd
          cases hdd
        split
        · rename_i hrest
          rw [List.isEmpty_iff.1 hrest, weight_reverse, weight_cons, size_nil, weight_nil]
          exact ⟨by omega, fun h => absurd h (by omega)⟩
        · have hle := (ih acc.tail).1
          exact ⟨by omega, fun h => absurd h (by omega)⟩
      · rename_i hdd
        split
        · rename_i hsd
          have hs : 0 < size s := size_pos fun h => by
            rw [h] at hsd
            cases hsd
          split
          · rename_i hrest
            rw [List.isEmpty_iff.1 hrest, weight_reverse, weight_cons, size_nil, weight_nil]
            exact ⟨by omega, fun h => absurd h (by omega)⟩
          · have hle := (ih acc).1
            exact ⟨by omega, fun h => absurd h (by omega)⟩
        · rename_i hsd
          obtain ⟨hle, hno⟩ := ih (s :: acc)
          rw [weight_cons] at hle hno
          refine ⟨by omega, fun h t ht => ?_⟩
          rcases List.mem_cons.1 ht with rfl | ht
          · exact ⟨Bool.eq_false_iff.2 hdd, Bool.eq_false_iff.2 hsd⟩
          · exact hno (by omega) t ht

theorem clean_sublist (l : List Char) : (clean l).Sublist l :=
  (List.takeWhile_sublist _).trans
    (List.filter_sublist.trans (List.rdropWhile_prefix _ _).sublist)

/-- What is said of a path whose bytes all arrive. -/
structure Intact (path : List Char) : Prop where
  ends : EndsPlain path
  kept : ∀ c ∈ path, endsPath c = false ∧ isDropped c = false
  noDots : ∀ s ∈ (path.splitOnP isSlash).tail, isDoubleDot s = false ∧ isSingleDot s = false
  segments_eq : segments path = (path.splitOnP isSlash).tail

theorem kept_of_clean_eq {l : List Char} (h : clean l = l) :
    EndsPlain l ∧ ∀ c ∈ l, endsPath c = false ∧ isDropped c = false := by
  have hsub₁ : (clean l).Sublist ((l.rdropWhile isTrimmed).filter fun c => !isDropped c) :=
    List.takeWhile_sublist _
  have hsub₂ : ((l.rdropWhile isTrimmed).filter fun c => !isDropped c).Sublist
      (l.rdropWhile isTrimmed) := List.filter_sublist
  have hsub₃ : (l.rdropWhile isTrimmed).Sublist l := (List.rdropWhile_prefix _ _).sublist
  rw [h] at hsub₁
  -- each of the three passes has kept everything
  have h₃ : l.rdropWhile isTrimmed = l := hsub₃.antisymm (hsub₁.trans hsub₂)
  rw [h₃] at hsub₁ hsub₂
  have h₂ : (l.filter fun c => !isDropped c) = l := hsub₂.antisymm hsub₁
  have h₁ : (l.takeWhile fun c => !endsPath c) = l := by
    rw [clean, h₃, h₂] at h
    exact h
  refine ⟨rdropWhile_eq_self_iff_endsPlain.1 h₃, fun c hc => ⟨?_, ?_⟩⟩
  · simpa using List.takeWhile_eq_self_iff.1 h₁ c hc
  · simpa using List.filter_eq_self.1 h₂ c hc

/-- The segments of a path have at most its bytes; if they have all of them, it is intact. -/
theorem weight_segments (path : List Char) :
    weight (segments path) ≤ size path ∧
      (size path ≤ weight (segments path) → Intact path) := by
  have hclean := size_le_of_sublist (clean_sublist path)
  have hsplit := weight_splitOnP (clean path)
  obtain ⟨hle, hno⟩ := removeDots_weight [] ((clean path).splitOnP isSlash).tail
  rw [weight_nil, Nat.zero_add] at hle hno
  have htail : weight ((clean path).splitOnP isSlash).tail + 1 ≤
      weight ((clean path).splitOnP isSlash) := by
    cases hs : (clean path).splitOnP isSlash with
    | nil => exact absurd hs (List.splitOnP_ne_nil _ _)
    | cons s ss =>
        rw [List.tail_cons, weight_cons]
        omega
  have hseg : weight (segments path) =
      weight (removeDots [] ((clean path).splitOnP isSlash).tail) := rfl
  refine ⟨by omega, fun h => ?_⟩
  have heq : clean path = path := eq_of_sublist_of_size (clean_sublist path) (by omega)
  have hdots := hno (by omega)
  rw [heq] at hdots
  obtain ⟨hends, hkept⟩ := kept_of_clean_eq heq
  refine ⟨hends, hkept, hdots, ?_⟩
  rw [segments, heq, removeDots_of_no_dots hdots]
  rfl

/-- No slash is left in a segment. -/
theorem not_isSlash_of_mem_splitOnP {l s : List Char} (h : s ∈ l.splitOnP isSlash) :
    ∀ c ∈ s, isSlash c = false := by
  induction l generalizing s with
  | nil =>
      obtain rfl := List.mem_singleton.1 h
      exact fun c hc => absurd hc List.not_mem_nil
  | cons a l ih =>
      rw [List.splitOnP_cons_eq_if_modifyHead] at h
      by_cases ha : isSlash a = true
      · rw [if_pos ha] at h
        rcases List.mem_cons.1 h with rfl | h
        · exact fun c hc => absurd hc List.not_mem_nil
        · exact ih h
      · rw [if_neg ha] at h
        cases hs : l.splitOnP isSlash with
        | nil => exact absurd hs (List.splitOnP_ne_nil _ _)
        | cons t ss =>
            rw [hs] at h ih
            rw [List.modifyHead_cons] at h
            rcases List.mem_cons.1 h with rfl | h
            · intro c hc
              rcases List.mem_cons.1 hc with rfl | hc
              · exact Bool.eq_false_iff.2 ha
              · exact ih List.mem_cons_self c hc
            · exact ih (List.mem_cons_of_mem _ h)

/-- **What arrives unchanged has been plain.**  After the segments `A` the segment `s` has arrived,
and it stands for the text that has been written there; what comes behind it is not shorter than
what has been written. -/
theorem plain_of_segments {A B B' : List (List Char)} {n : String} {s : List Char}
    (h : segments (join (A ++ n.toList :: B)) = A ++ s :: B') (hB : weight B ≤ weight B')
    (hs : s ≠ []) (hn : percentDecode s = some n) :
    Plain n.toList ∧ (B = [] → EndsPlain n.toList) := by
  obtain ⟨hle, hesc⟩ := percentDecode_size hn
  obtain ⟨hge, hintact⟩ := weight_segments (join (A ++ n.toList :: B))
  rw [h, size_join, weight_append, weight_append, weight_cons, weight_cons] at hge hintact
  have hint := hintact (by omega)
  obtain ⟨hno, rfl⟩ := hesc (by omega)
  rw [String.toList_ofList] at h hint ⊢
  have hmem : s ∈ ((join (A ++ s :: B)).splitOnP isSlash).tail := by
    rw [← hint.segments_eq, h]
    exact List.mem_append_right _ List.mem_cons_self
  have hpath : join (A ++ s :: B) = join A ++ '/' :: (s ++ join B) := by
    rw [join_append, join_cons]
  refine ⟨⟨hs, fun c hc => ?_, (hint.noDots s hmem).2, (hint.noDots s hmem).1, hno⟩, ?_⟩
  · have hc' : c ∈ join (A ++ s :: B) := by
      rw [hpath]
      exact List.mem_append_right _ (List.mem_cons_of_mem _ (List.mem_append_left _ hc))
    exact ⟨not_isSlash_of_mem_splitOnP (List.mem_of_mem_tail hmem) c hc, hint.kept c hc'⟩
  · rintro rfl
    exact (endsPlain_join hs).1 hint.ends

end Http
