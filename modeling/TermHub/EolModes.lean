/-
**The modes of `eol.rs`.**

What the modes promise is said of an input that is split from the left into `\r\n` pairs, lone
`\r`, lone `\n` and other bytes.  `transform` rewrites this list token by token, and the tokens of
the result are the rewritten tokens: a rewritten terminator never joins its neighbour.

Main definitions:

* `Eol.Indexed.transform` — `transform` with every access to the input by its index;
* `Eol.Token`, `Eol.tokens` — the split;
* `Eol.settle`, `Eol.image` — what the code, and what the documentation makes of a token;
* `Eol.LfBehindCr`, `Eol.CrBeforeLf` — normal forms.

Main results:

* `Eol.Indexed.transform_eq` — the loop stays within the input and computes `transform`;
* `Eol.tokens_eq_iff` — the split is the only one in which what counts as lone is lone;
* `Eol.tokens_transform` — **the tokens of the result**;
* `Eol.transform_documented_iff` — **the documented result, unless a pair meets the mode `cr`**;
* `Eol.transform_normal_form` — **the result is in normal form and stays as it is**.
-/

import TermHub.Eol
import TermHub.Scan

set_option relaxedAutoImplicit false
set_option autoImplicit false

namespace TermHub

namespace Eol

open Runner (Bytes)
open Scan

/-! ### The loop over the indices -/

namespace Indexed

/-- `i + 1 < bytes.len() && bytes[i + 1] == b'\n'`. -/
def followedByLf (bytes : Bytes) (i : ℕ) : Except Fault Bool :=
  if i + 1 < bytes.length then (index bytes (i + 1)).map (· == LF) else .ok false

/-- The loop of `transform`; its variables are `i` and `out`. -/
def transformLoop (mode : EolMode) (bytes : Bytes) : While (ℕ × Bytes) Bytes where
  cond := fun (i, _) => i < bytes.length
  body := fun (i, out) => do
    let b ← index bytes i
    if mode = .lf ∧ b = CR then
      if ← followedByLf bytes i then .ok (.inl (i + 2, out ++ [CR, LF]))
      else .ok (.inl (i + 1, out ++ [LF]))
    else if mode = .crlf ∧ b = CR then
      if ← followedByLf bytes i then .ok (.inl (i + 2, out ++ [CR, LF]))
      else .ok (.inl (i + 1, out ++ [CR, LF]))
    else if mode = .crlf ∧ b = LF then .ok (.inl (i + 1, out ++ [CR, LF]))
    else if mode = .cr ∧ b = LF then .ok (.inl (i + 1, out ++ [CR]))
    else .ok (.inl (i + 1, out ++ [b]))
  done := fun (_, out) => out

/-- `transform`; the loop may take as many rounds as the input has bytes. -/
def transform (mode : EolMode) (input : Bytes) : Except Fault Bytes :=
  if mode = .asIs ∨ input = [] then .ok input
  else (transformLoop mode input).run input.length (0, [])

theorem followedByLf_eq {bytes rest : Bytes} {i : ℕ} {b : UInt8} (h : bytes.drop i = b :: rest) :
    followedByLf bytes i = .ok (rest.head? == some LF) := by
  have hlen := length_drop_of_cons h
  unfold followedByLf
  cases rest with
  | nil =>
      rw [List.length_nil] at hlen
      rw [if_neg (by omega)]
      rfl
  | cons c rest =>
      rw [List.length_cons] at hlen
      rw [if_pos (by omega), index_succ_of_drop h]
      rfl

/-- A round of the loop takes a pair that the mode recognises, or a byte alone. -/
theorem transformLoop_body {mode : EolMode} {bytes rest : Bytes} {i : ℕ} {b : UInt8}
    (h : bytes.drop i = b :: rest) (out : Bytes) :
    (transformLoop mode bytes).body (i, out) =
      if mode.Pairs ∧ b = CR ∧ rest.head? = some LF then .ok (.inl (i + 2, out ++ [CR, LF]))
      else .ok (.inl (i + 1, out ++ mode.single b)) := by
  simp only [transformLoop, index_of_drop h, followedByLf_eq h, bind, Except.bind, beq_iff_eq]
  have hne : CR ≠ LF := by decide
  cases mode with
  | asIs => rfl
  | cr =>
      by_cases hb : b = LF
      · subst hb
        rfl
      · simp [hb, EolMode.Pairs, EolMode.single]
  | lf | crlf =>
      by_cases hb : b = CR
      · subst hb
        by_cases hnext : rest.head? = some LF
        · simp [hnext, EolMode.Pairs]
        · simp [hnext, EolMode.single]
      · by_cases hlf : b = LF
        · simp [hlf, hne.symm, EolMode.single]
        · simp [hb, hlf, EolMode.single]

/-- What has been put out, and what the rest of the input is converted to, add up to the result. -/
theorem transformLoop_correct (mode : EolMode) (input : Bytes) : (transformLoop mode input).Correct
    (fun (i, out) => out ++ mode.loop (input.drop i) = mode.loop input)
    (fun (i, _) => input.length - i) (· = mode.loop input) := by
  refine ⟨?_, ?_, ?_⟩
  · rintro ⟨i, out⟩ - hc
    have hi : i < input.length := of_decide_eq_true hc
    exact Nat.sub_pos_of_lt hi
  · rintro ⟨i, out⟩ hout hc
    have hi : i < input.length := of_decide_eq_true hc
    obtain ⟨b, rest, hdrop⟩ := exists_drop_eq_cons hi
    have hlen := length_drop_of_cons hdrop
    dsimp only at hout
    rw [transformLoop_body hdrop]
    rw [hdrop] at hout
    split
    · rename_i hpair
      obtain ⟨hm, rfl, hnext⟩ := hpair
      obtain ⟨rest, rfl⟩ := List.head?_eq_some_iff.1 hnext
      have hrest : input.drop (i + 2) = rest := drop_succ_of_drop (drop_succ_of_drop hdrop)
      rw [List.length_cons] at hlen
      refine ⟨_, rfl, ?_, ?_⟩
      · dsimp only
        rw [hrest, List.append_assoc, ← hout, EolMode.loop_pair hm]
        rfl
      · dsimp only
        omega
    · rename_i hpair
      refine ⟨_, rfl, ?_, ?_⟩
      · dsimp only
        rw [drop_succ_of_drop hdrop, List.append_assoc, ← hout, EolMode.loop_cons hpair]
      · dsimp only
        omega
  · rintro ⟨i, out⟩ hout hc
    have hend : ¬ i < input.length := of_decide_eq_false hc
    have hall : input.drop i = [] := List.drop_eq_nil_of_le (Nat.le_of_not_lt hend)
    dsimp only at hout
    rw [hall] at hout
    exact (List.append_nil out).symm.trans hout

/-- **The loop stays within the input** and computes `transform`. -/
theorem transform_eq (mode : EolMode) (input : Bytes) :
    transform mode input = .ok (TermHub.transform mode input) := by
  unfold transform
  split
  · rename_i hkeep
    rw [TermHub.transform, if_pos hkeep]
  · rename_i hkeep
    obtain ⟨out, hrun, rfl⟩ := (transformLoop_correct mode input).run (s := (0, [])) rfl
      (Nat.sub_le _ _)
    rw [hrun, TermHub.transform, if_neg hkeep]

example : transform .crlf [97, CR, 98, LF, 99, CR, LF, 100] =
    .ok [97, CR, LF, 98, CR, LF, 99, CR, LF, 100] := rfl

end Indexed

/-! ### Tokens -/

/-- What an input is split into. -/
inductive Token
  | crlf
  | cr
  | lf
  | other (b : UInt8) (hcr : b ≠ CR) (hlf : b ≠ LF)
  deriving DecidableEq, Repr

namespace Token

def spell : Token → Bytes
  | crlf => [CR, LF]
  | cr => [CR]
  | lf => [LF]
  | other b _ _ => [b]

/-- The token of a byte that stands alone. -/
def lone (b : UInt8) : Token :=
  if hcr : b = CR then cr else if hlf : b = LF then lf else other b hcr hlf

end Token

/-- Split an input from the left. -/
def tokens : Bytes → List Token
  | [] => []
  | [b] => [Token.lone b]
  | b :: c :: rest =>
    if b = CR ∧ c = LF then .crlf :: tokens rest else Token.lone b :: tokens (c :: rest)

/-- What the documentation makes of a token: `Lf` maps a lone `\r` to `\n`, `Crlf` maps a lone `\r`
and a lone `\n` to `\r\n`, and `Cr` maps a lone `\n` to `\r`. -/
def image : EolMode → Token → Bytes
  | .lf, .cr => [LF]
  | .crlf, .cr => [CR, LF]
  | .crlf, .lf => [CR, LF]
  | .cr, .lf => [CR]
  | _, t => t.spell

/-- The documented result. -/
def documented (mode : EolMode) (s : Bytes) : Bytes := (tokens s).flatMap (image mode)

/-- What the code makes of a token: in the mode `Cr` the two bytes of a pair are no pair. -/
def settle : EolMode → Token → List Token
  | .lf, .cr => [.lf]
  | .crlf, .cr => [.crlf]
  | .crlf, .lf => [.crlf]
  | .cr, .lf => [.cr]
  | .cr, .crlf => [.cr, .cr]
  | _, t => [t]

/-! ### The split -/

@[simp] theorem Token.spell_lone (b : UInt8) : (Token.lone b).spell = [b] := by
  unfold Token.lone
  split
  · rename_i hcr
    rw [hcr]
    rfl
  · split
    · rename_i hlf
      rw [hlf]
      rfl
    · rfl

theorem Token.lone_ne_crlf (b : UInt8) : Token.lone b ≠ .crlf := by
  unfold Token.lone
  split
  · exact Token.noConfusion
  · split <;> exact Token.noConfusion

/-- The tokens spell the input. -/
theorem spell_tokens (s : Bytes) : (tokens s).flatMap Token.spell = s := by
  fun_induction tokens s with
  | case1 => rfl
  | case2 b => simp
  | case3 b c rest h ih =>
      obtain ⟨rfl, rfl⟩ := h
      rw [List.flatMap_cons, ih]
      rfl
  | case4 b c rest h ih =>
      rw [List.flatMap_cons, ih, Token.spell_lone]
      rfl

theorem tokens_cons {b : UInt8} {s : Bytes} (h : ¬ (b = CR ∧ s.head? = some LF)) :
    tokens (b :: s) = Token.lone b :: tokens s := by
  cases s with
  | nil => rfl
  | cons c s => rw [tokens, if_neg fun hp => h ⟨hp.1, congrArg some hp.2⟩]

theorem tokens_pair (s : Bytes) : tokens (CR :: LF :: s) = .crlf :: tokens s := by
  rw [tokens, if_pos ⟨rfl, rfl⟩]

/-- A list of tokens in which no lone `\r` stands before a lone `\n`. -/
def Lone (ts : List Token) : Prop := ¬ [Token.cr, Token.lf] <:+: ts

theorem lone_nil : Lone [] := by simp [Lone]

theorem lone_cons {t : Token} {ts : List Token} :
    Lone (t :: ts) ↔ ¬ (t = .cr ∧ ts.head? = some .lf) ∧ Lone ts := by
  rw [Lone, pair_infix_cons, not_or]
  rfl

/-- Nothing but a lone `\n` starts with `\n`. -/
theorem head_spell {ts : List Token} (h : (ts.flatMap Token.spell).head? = some LF) :
    ts.head? = some .lf := by
  cases ts with
  | nil => cases h
  | cons t ts =>
      cases t with
      | crlf | cr => exact absurd (Option.some_inj.1 h) (by decide)
      | lf => rfl
      | other b hcr hlf => exact absurd (Option.some_inj.1 h) hlf

/-- What a list of tokens spells is split into these tokens. -/
theorem tokens_spell {ts : List Token} (h : Lone ts) : tokens (ts.flatMap Token.spell) = ts := by
  induction ts with
  | nil => rfl
  | cons t ts ih =>
      obtain ⟨hnext, htail⟩ := lone_cons.1 h
      rw [List.flatMap_cons]
      cases t with
      | crlf => exact (tokens_pair _).trans (congrArg _ (ih htail))
      | cr =>
          refine (tokens_cons fun hp => hnext ⟨rfl, head_spell hp.2⟩).trans ?_
          exact congrArg (List.cons Token.cr) (ih htail)
      | lf =>
          refine (tokens_cons fun hp => absurd hp.1 (by decide)).trans ?_
          exact congrArg (List.cons Token.lf) (ih htail)
      | other b hcr hlf =>
          refine (tokens_cons fun hp => hcr hp.1).trans ?_
          rw [Token.lone, dif_neg hcr, dif_neg hlf]
          exact congrArg (List.cons (Token.other b hcr hlf)) (ih htail)

theorem lone_tokens (s : Bytes) : Lone (tokens s) := by
  fun_induction tokens s with
  | case1 => exact lone_nil
  | case2 b => exact lone_cons.2 ⟨fun hp => (nomatch hp.2), lone_nil⟩
  | case3 b c rest h ih => exact lone_cons.2 ⟨fun hp => Token.noConfusion hp.1, ih⟩
  | case4 b c rest h ih =>
      refine lone_cons.2 ⟨?_, ih⟩
      rintro ⟨hb, hc⟩
      obtain ⟨ts, hts⟩ := List.head?_eq_some_iff.1 hc
      have hcr : (Token.lone b).spell = [CR] := congrArg Token.spell hb
      have hlf : c :: rest = LF :: ts.flatMap Token.spell := by
        rw [← spell_tokens (c :: rest), hts]
        rfl
      rw [Token.spell_lone] at hcr
      exact h ⟨(List.cons.inj hcr).1, (List.cons.inj hlf).1⟩

/-- **The split** is the only list of tokens that spells the input and in which what counts as lone
is lone. -/
theorem tokens_eq_iff {s : Bytes} {ts : List Token} :
    tokens s = ts ↔ ts.flatMap Token.spell = s ∧ Lone ts := by
  constructor
  · rintro rfl
    exact ⟨spell_tokens s, lone_tokens s⟩
  · rintro ⟨rfl, h⟩
    exact tokens_spell h

/-- A pair in the input is a token. -/
theorem crlf_mem_tokens (s : Bytes) : .crlf ∈ tokens s ↔ [CR, LF] <:+: s := by
  fun_induction tokens s with
  | case1 => simp
  | case2 b => simp [(Token.lone_ne_crlf b).symm, List.infix_cons_iff]
  | case3 b c rest h ih =>
      obtain ⟨rfl, rfl⟩ := h
      exact iff_of_true List.mem_cons_self ⟨[], rest, rfl⟩
  | case4 b c rest h ih =>
      rw [List.mem_cons, pair_infix_cons, ih]
      refine ⟨fun hmem => .inr (hmem.resolve_left (Token.lone_ne_crlf b).symm), ?_⟩
      rintro (hpair | hrest)
      · exact absurd ⟨hpair.1, Option.some_inj.1 hpair.2⟩ h
      · exact .inr hrest

/-! ### The result, token by token -/

section Settle

variable (mode : EolMode)

theorem spell_settle_lone (b : UInt8) :
    (settle mode (Token.lone b)).flatMap Token.spell = mode.single b := by
  have hne : LF ≠ CR := by decide
  by_cases hcr : b = CR
  · subst hcr
    cases mode <;> rfl
  · by_cases hlf : b = LF
    · subst hlf
      cases mode <;> rfl
    · rw [Token.lone, dif_neg hcr, dif_neg hlf]
      cases mode <;> simp [settle, Token.spell, EolMode.single, hcr, hlf]

theorem spell_settle_crlf (s : Bytes) :
    mode.loop (CR :: LF :: s) = (settle mode .crlf).flatMap Token.spell ++ mode.loop s := by
  by_cases hm : mode.Pairs
  · rw [EolMode.loop_pair hm]
    cases mode <;> first | rfl | exact hm.elim
  · rw [EolMode.loop_cons fun h => hm h.1, EolMode.loop_cons fun h => hm h.1]
    cases mode <;> first | rfl | exact absurd trivial hm

/-- The loop rewrites the tokens of its input. -/
theorem loop_eq_spell (s : Bytes) :
    mode.loop s = ((tokens s).flatMap (settle mode)).flatMap Token.spell := by
  fun_induction tokens s with
  | case1 => rfl
  | case2 b => simp [spell_settle_lone, EolMode.loop]
  | case3 b c rest h ih =>
      obtain ⟨rfl, rfl⟩ := h
      rw [spell_settle_crlf, ih, List.flatMap_cons, List.flatMap_append]
  | case4 b c rest h ih =>
      rw [EolMode.loop_cons, ih, List.flatMap_cons, List.flatMap_append, spell_settle_lone]
      exact fun hp => h ⟨hp.2.1, Option.some_inj.1 hp.2.2⟩

end Settle

/-- What has been rewritten stays as it is. -/
theorem settle_of_mem {mode : EolMode} {t u : Token} (h : u ∈ settle mode t) :
    settle mode u = [u] := by
  cases mode <;> cases t <;>
    simp only [settle, List.mem_cons, List.not_mem_nil, or_false, or_self] at h <;>
    subst h <;> rfl

theorem settle_of_mem_flatMap {mode : EolMode} {ts : List Token} {u : Token}
    (h : u ∈ ts.flatMap (settle mode)) : settle mode u = [u] := by
  obtain ⟨t, -, ht⟩ := List.mem_flatMap.1 h
  exact settle_of_mem ht

/-- A rewritten terminator does not join its neighbour. -/
theorem lone_settle (mode : EolMode) (s : Bytes) : Lone ((tokens s).flatMap (settle mode)) := by
  cases mode with
  | asIs =>
      have hsame : (tokens s).flatMap (settle .asIs) = tokens s := List.flatMap_singleton' _
      rw [hsame]
      exact lone_tokens s
  | lf | crlf =>
      -- there is no lone `\r` left
      intro h
      exact absurd (settle_of_mem_flatMap (h.subset List.mem_cons_self)) (by decide)
  | cr =>
      -- there is no lone `\n` left
      intro h
      have hmem := h.subset (List.mem_cons_of_mem _ List.mem_cons_self)
      exact absurd (settle_of_mem_flatMap hmem) (by decide)

/-- **The tokens of the result** are the rewritten tokens of the input. -/
theorem tokens_transform (mode : EolMode) (s : Bytes) :
    tokens (transform mode s) = (tokens s).flatMap (settle mode) := by
  rw [transform_eq_loop, loop_eq_spell]
  exact tokens_spell (lone_settle mode s)

/-! ### The documented modes -/

/-- The code makes of a token what is documented, but not of a pair in the mode `Cr`. -/
theorem spell_settle {mode : EolMode} {t : Token} (h : mode = .cr → t ≠ .crlf) :
    (settle mode t).flatMap Token.spell = image mode t := by
  cases mode with
  | asIs => exact List.append_nil _
  | lf | crlf => cases t <;> rfl
  | cr =>
      cases t with
      | crlf => exact absurd rfl (h rfl)
      | cr | lf | other => rfl

theorem not_mem_settle_cr (t : Token) : LF ∉ (settle .cr t).flatMap Token.spell := by
  cases t with
  | other b hcr hlf =>
      intro h
      exact hlf (List.mem_singleton.1 h).symm
  | crlf | cr | lf => decide

/-- **The documented modes**: the result is the documented one, unless the mode is `Cr` and a pair
occurs in the input. -/
theorem transform_documented_iff (mode : EolMode) (s : Bytes) :
    transform mode s = documented mode s ↔ (mode = .cr → ¬ [CR, LF] <:+: s) := by
  rw [← crlf_mem_tokens, transform_eq_loop, loop_eq_spell, List.flatMap_assoc, documented]
  constructor
  · rintro heq rfl hpair
    -- the pair keeps its `\n` in the documented result, and there is none in the other
    have hlf : LF ∈ (tokens s).flatMap (image .cr) :=
      List.mem_flatMap.2 ⟨.crlf, hpair, List.mem_cons_of_mem _ List.mem_cons_self⟩
    rw [← heq] at hlf
    obtain ⟨t, -, ht⟩ := List.mem_flatMap.1 hlf
    exact not_mem_settle_cr t ht
  · intro h
    exact List.flatMap_congr fun t ht => spell_settle fun hm htok => h hm (htok ▸ ht)

/-- A pair in the mode `Cr`. -/
theorem not_documented_pair : ¬ ∀ mode s, transform mode s = documented mode s := by
  intro h
  exact absurd (h .cr [CR, LF]) (by decide)

/-! ### Normal forms -/

/-- Every `\r` is immediately followed by `\n`. -/
def LfBehindCr (s : Bytes) : Prop := ∀ i, s[i]? = some CR → s[i + 1]? = some LF

/-- Every `\n` is immediately preceded by `\r`. -/
def CrBeforeLf (s : Bytes) : Prop := ∀ i, s[i]? = some LF → 0 < i ∧ s[i - 1]? = some CR

/-- A byte that ends no line. -/
def plain (b : UInt8) : Bool := b ≠ CR ∧ b ≠ LF

theorem lfBehindCr_spell {ts : List Token} (h : .cr ∉ ts) :
    LfBehindCr (ts.flatMap Token.spell) := by
  induction ts with
  | nil => exact fun i hi => nomatch hi
  | cons t ts ih =>
      rw [List.mem_cons, not_or] at h
      obtain ⟨hne, hts⟩ := h
      intro i hi
      rw [List.flatMap_cons] at hi ⊢
      cases t with
      | cr => exact absurd rfl hne
      | crlf =>
          match i with
          | 0 => rfl
          | 1 => exact absurd (Option.some_inj.1 hi) (by decide)
          | i + 2 => exact ih hts i hi
      | lf =>
          cases i with
          | zero => exact absurd (Option.some_inj.1 hi) (by decide)
          | succ i => exact ih hts i hi
      | other b hcr hlf =>
          cases i with
          | zero => exact absurd (Option.some_inj.1 hi) hcr
          | succ i => exact ih hts i hi

theorem crBeforeLf_spell {ts : List Token} (h : .lf ∉ ts) :
    CrBeforeLf (ts.flatMap Token.spell) := by
  induction ts with
  | nil => exact fun i hi => nomatch hi
  | cons t ts ih =>
      rw [List.mem_cons, not_or] at h
      obtain ⟨hne, hts⟩ := h
      intro i hi
      rw [List.flatMap_cons] at hi ⊢
      have hrest : ∀ {b i}, (ts.flatMap Token.spell)[i]? = some LF →
          0 < i + 1 ∧ (b :: ts.flatMap Token.spell)[i]? = some CR := by
        intro b i hi
        obtain ⟨hpos, hcr⟩ := ih hts i hi
        cases i with
        | zero => exact absurd hpos (Nat.lt_irrefl 0)
        | succ i => exact ⟨Nat.succ_pos _, hcr⟩
      cases t with
      | lf => exact absurd rfl hne
      | crlf =>
          match i with
          | 0 => exact absurd (Option.some_inj.1 hi) (by decide)
          | 1 => exact ⟨Nat.one_pos, rfl⟩
          | i + 2 => exact ⟨Nat.succ_pos _, (hrest (b := LF) hi).2⟩
      | cr =>
          cases i with
          | zero => exact absurd (Option.some_inj.1 hi) (by decide)
          | succ i => exact hrest hi
      | other b hcr hlf =>
          cases i with
          | zero => exact absurd (Option.some_inj.1 hi) hlf
          | succ i => exact hrest hi

theorem transform_idempotent (mode : EolMode) (x : Bytes) :
    transform mode (transform mode x) = transform mode x := by
  have hfix : (tokens (transform mode x)).flatMap (settle mode) = tokens (transform mode x) := by
    rw [tokens_transform]
    refine (List.flatMap_congr fun t ht => settle_of_mem_flatMap ht).trans ?_
    exact List.flatMap_singleton' _
  calc transform mode (transform mode x)
    _ = ((tokens (transform mode x)).flatMap (settle mode)).flatMap Token.spell := by
        rw [transform_eq_loop, loop_eq_spell]
    _ = transform mode x := by rw [hfix, spell_tokens]

theorem filter_settle (mode : EolMode) (t : Token) :
    ((settle mode t).flatMap Token.spell).filter plain = t.spell.filter plain := by
  cases mode <;> cases t <;> simp [settle, Token.spell, plain]

theorem transform_filter (mode : EolMode) (x : Bytes) :
    (transform mode x).filter plain = x.filter plain := by
  have hx : x.filter plain = (tokens x).flatMap fun t => t.spell.filter plain := by
    rw [← List.filter_flatMap, spell_tokens]
  rw [transform_eq_loop, loop_eq_spell, List.flatMap_assoc, List.filter_flatMap, hx]
  exact List.flatMap_congr fun t _ => filter_settle mode t

/-- A token that the mode rewrites is not left. -/
theorem not_mem_tokens_transform {mode : EolMode} {t : Token} (h : settle mode t ≠ [t])
    (x : Bytes) : t ∉ tokens (transform mode x) := by
  rw [tokens_transform]
  exact fun ht => h (settle_of_mem_flatMap ht)

theorem lfBehindCr_transform {mode : EolMode} (h : settle mode .cr ≠ [.cr]) (x : Bytes) :
    LfBehindCr (transform mode x) := by
  rw [← spell_tokens (transform mode x)]
  exact lfBehindCr_spell (not_mem_tokens_transform h x)

theorem crBeforeLf_transform {mode : EolMode} (h : settle mode .lf ≠ [.lf]) (x : Bytes) :
    CrBeforeLf (transform mode x) := by
  rw [← spell_tokens (transform mode x)]
  exact crBeforeLf_spell (not_mem_tokens_transform h x)

/-- **The result is in normal form**: it is its own result, the bytes that end no line are those of
the input, and the terminators are those of the mode. -/
theorem transform_normal_form (mode : EolMode) (x : Bytes) :
    transform mode (transform mode x) = transform mode x ∧
      (transform mode x).filter plain = x.filter plain ∧
      LfBehindCr (transform .lf x) ∧
      (LfBehindCr (transform .crlf x) ∧ CrBeforeLf (transform .crlf x)) ∧
      CrBeforeLf (transform .cr x) :=
  ⟨transform_idempotent mode x, transform_filter mode x, lfBehindCr_transform (by decide) x,
    ⟨lfBehindCr_transform (by decide) x, crBeforeLf_transform (by decide) x⟩,
    crBeforeLf_transform (by decide) x⟩

end Eol

end TermHub
