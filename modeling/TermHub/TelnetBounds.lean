/-
**The bounds of the Telnet loop.**

`process_iac_block` and the loop over `tail` in `termhub-drivers/src/telnet.rs`, with every access
to a buffer by its index.  What they return is what the functions of `Telnet` compute; so the loop
never leaves its buffer, it takes what it hands on or answers block by block, and it stops in front
of a command that is not complete.

Main definitions:

* `Indexed.processIacBlock`, `Indexed.parseLoop`, `Indexed.parse` — the code;
* `Taken` — the blocks that a round of the loop may take;
* `Unfinished` — a command that has begun.

Main results:

* `Indexed.processIacBlock_eq` — a block is read within the slice;
* `Indexed.parse_eq` — the loop ends after as many rounds as there are bytes, within `tail`;
* `readArm_eq_parse` — the read arm runs this loop;
* `body_cases` — what a round takes, and what stops the loop;
* `parse_loop_safe` — **the loop is safe and makes progress**.
-/

import TermHub.Scan
import TermHub.TelnetOutbound

set_option relaxedAutoImplicit false
set_option autoImplicit false

namespace TermHub

namespace Telnet

open Resumable
open Runner (Bytes DriverError)
open Scan

/-! ### The code -/

namespace Indexed

def simple3 (input : Bytes) (replyVerb : UInt8) : Except Fault (ℕ × Bytes) :=
  if input.length < 3 then .ok (0, [])
  else do
    let option ← index input 2
    .ok (3, [IAC, replyVerb, option])

/-- The loop that looks for the end of a subnegotiation; its variable is `i`. -/
def seLoop (input : Bytes) : While ℕ (ℕ × Bytes) where
  cond := fun i => i + 1 < input.length
  body := fun i => do
    let a ← index input i
    if a = IAC then
      let b ← index input (i + 1)
      if b = SE then .ok (.inr (i + 2, [])) else .ok (.inl (i + 1))
    else .ok (.inl (i + 1))
  done := fun _ => (0, [])

/-- `process_iac_block`; its loop may take as many rounds as the input has bytes. -/
def processIacBlock (input : Bytes) : Except Fault (ℕ × Bytes) :=
  if input.length < 2 then .ok (0, [])
  else do
    let first ← index input 0
    if first ≠ IAC then .ok (0, [])
    else
      let verb ← index input 1
      if verb = IAC then .ok (2, [])
      else if verb = DO then simple3 input WONT
      else if verb = DONT then simple3 input WONT
      else if verb = WILL then simple3 input DONT
      else if verb = WONT then simple3 input DONT
      else if verb = SB then (seLoop input).run input.length 2
      else .ok (2, [])

/-- The loop over `tail`. -/
def parseLoop (tail : Bytes) : While Loop Loop where
  cond := fun l => l.i < tail.length
  body := fun l => do
    let b ← index tail l.i
    if b = IAC then
      let slice ← sliceFrom tail l.i
      let (consumed, reply) ← processIacBlock slice
      if consumed = 0 then .ok (.inr l)
      else
        -- the byte behind `IAC` is read only if the block is two bytes long
        let escaped ← if consumed = 2 then (index tail (l.i + 1)).map (· == IAC) else .ok false
        .ok (.inl ⟨l.i + consumed, if escaped then l.dataOut ++ [0xFF] else l.dataOut,
          l.written ++ reply⟩)
    else
      let data ← index tail l.i
      .ok (.inl ⟨l.i + 1, l.dataOut ++ [data], l.written⟩)
  done := id

/-- The loop in at most as many rounds as there are bytes, and the tail that it leaves. -/
def parse (tail : Bytes) : Except Fault (Loop × Bytes) := do
  let l ← (parseLoop tail).run tail.length ⟨0, [], []⟩
  let (_, leftover) ← splitOff tail l.i
  .ok (l, leftover)

/-! ### A block is read within the slice -/

theorem simple3_eq (input : Bytes) (verb : UInt8) :
    simple3 input verb = .ok (Telnet.simple3 input verb) := by
  match input with
  | [] | [_] | [_, _] => rfl
  | a :: b :: option :: rest => exact if_neg (Nat.not_lt.2 (Nat.le_add_left 3 rest.length))

/-- A round of the search: the end has been reached, or the next byte is looked at. -/
theorem seLoop_body {input rest : Bytes} {i : ℕ} {a b : UInt8}
    (h : input.drop i = a :: b :: rest) : (seLoop input).body i =
      .ok (if a = IAC ∧ b = SE then .inr (i + 2, []) else .inl (i + 1)) := by
  simp only [seLoop, index_of_drop h, index_succ_of_drop h, bind, Except.bind]
  by_cases ha : a = IAC
  · by_cases hb : b = SE
    · rw [if_pos ha, if_pos hb, if_pos ⟨ha, hb⟩]
    · rw [if_pos ha, if_neg hb, if_neg fun hp => hb hp.2]
  · rw [if_neg ha, if_neg fun hp => ha hp.1]

/-- From every position the search comes to what `findSe` finds. -/
theorem seLoop_correct (input : Bytes) : (seLoop input).Correct
    (fun i => findSe i (input.drop i) = findSe 2 (input.drop 2)) (input.length - ·)
    (· = findSe 2 (input.drop 2)) := by
  refine ⟨?_, ?_, ?_⟩
  · intro i _ hc
    have hlt : i + 1 < input.length := of_decide_eq_true hc
    omega
  · intro i hi hc
    have hlt : i + 1 < input.length := of_decide_eq_true hc
    obtain ⟨a, b, rest, hdrop⟩ := exists_drop_eq_cons_cons hlt
    rw [hdrop, findSe] at hi
    rw [seLoop_body hdrop]
    split at hi
    · rename_i hend
      rw [if_pos hend]
      exact ⟨_, rfl, hi⟩
    · rename_i hend
      rw [if_neg hend]
      refine ⟨_, rfl, ?_, ?_⟩
      · rw [drop_succ_of_drop hdrop, hi]
      · omega
  · intro i hi hc
    have hend : ¬ i + 1 < input.length := of_decide_eq_false hc
    cases hdrop : input.drop i with
    | nil =>
        rw [hdrop] at hi
        exact hi
    | cons a rest =>
        have hlen := length_drop_of_cons hdrop
        obtain rfl : rest = [] := List.length_eq_zero_iff.1 (by omega)
        rw [hdrop] at hi
        exact hi

/-- **The search for the end of a subnegotiation stays within the input.** -/
theorem seLoop_run (input : Bytes) :
    (seLoop input).run input.length 2 = .ok (findSe 2 (input.drop 2)) := by
  obtain ⟨x, hrun, rfl⟩ := (seLoop_correct input).run (s := 2) rfl (Nat.sub_le _ _)
  exact hrun

/-- **A block is read within the slice.** -/
theorem processIacBlock_eq (input : Bytes) :
    processIacBlock input = .ok (Telnet.processIacBlock input) := by
  match input with
  | [] | [_] => rfl
  | a :: verb :: rest =>
      have hlen : ¬ (a :: verb :: rest).length < 2 := Nat.not_lt.2 (Nat.le_add_left 2 rest.length)
      have hfirst : index (a :: verb :: rest) 0 = .ok a := rfl
      have hverb : index (a :: verb :: rest) 1 = .ok verb := rfl
      have hend : (seLoop (a :: verb :: rest)).run (a :: verb :: rest).length 2 =
          .ok (findSe 2 rest) := seLoop_run _
      simp only [processIacBlock, Telnet.processIacBlock, if_neg hlen, hfirst, hverb, hend,
        simple3_eq, bind, Except.bind]
      -- both go the same way
      split_ifs <;> rfl

/-! ### The loop ends within `tail` -/

/-- What the loop comes to: the items of `tail`, as the reader takes them. -/
def parsed (tail : Bytes) : Loop where
  i := tail.length - (body.readAll tail).2.length
  dataOut := (body.readAll tail).1.flatMap Prod.fst
  written := (body.readAll tail).1.flatMap Prod.snd

/-- A round of the loop takes what the reader takes at `tail[i..]`, or leaves the loop. -/
theorem parseLoop_body {tail : Bytes} {l : Loop} (hi : l.i < tail.length) :
    (parseLoop tail).body l = .ok (match body (tail.drop l.i) with
      | some (consumed, data, reply) =>
        .inl ⟨l.i + consumed, l.dataOut ++ data, l.written ++ reply⟩
      | none => .inr l) := by
  obtain ⟨b, rest, hdrop⟩ := exists_drop_eq_cons hi
  simp only [parseLoop, index_of_drop hdrop, sliceFrom_eq_ok (Nat.le_of_lt hi), hdrop,
    processIacBlock_eq, bind, Except.bind]
  by_cases hb : b = IAC
  · subst hb
    obtain ⟨n, w, hp⟩ : ∃ n w, Telnet.processIacBlock (IAC :: rest) = (n, w) := ⟨_, _, rfl⟩
    rw [body_iac hp, hp]
    simp only [if_true]
    by_cases hn : n = 0
    · simp [hn]
    · by_cases h2 : n = 2
      · -- a block of two bytes has a byte behind `IAC`
        subst h2
        obtain ⟨-, hle⟩ := processIacBlock_stable hp hn []
        cases rest with
        | nil => exact absurd hle (by decide)
        | cons c rest =>
            rw [index_succ_of_drop hdrop]
            by_cases hc : c = IAC
            · simp [hc, Except.map]
            · simp [hc, Except.map]
      · simp [hn, h2]
  · simp [body, hb]

/-- What the variables of the loop and what is left of `tail` add up to. -/
structure Reached (tail : Bytes) (l : Loop) : Prop where
  le : l.i ≤ tail.length
  dataOut : l.dataOut ++ (body.readAll (tail.drop l.i)).1.flatMap Prod.fst = (parsed tail).dataOut
  written : l.written ++ (body.readAll (tail.drop l.i)).1.flatMap Prod.snd = (parsed tail).written
  rest : (body.readAll (tail.drop l.i)).2 = (body.readAll tail).2

/-- Where the reader takes nothing, the loop has come to its end. -/
theorem Reached.eq_parsed {tail : Bytes} {l : Loop} (h : Reached tail l)
    (hnone : body (tail.drop l.i) = none) : l = parsed tail := by
  obtain ⟨hle, hdata, hwritten, hrest⟩ := h
  rw [Reader.readAll_none hnone] at hdata hwritten hrest
  have hlen : (tail.drop l.i).length = tail.length - l.i := List.length_drop
  have hi : l.i = (parsed tail).i := by
    have hleft : (tail.drop l.i).length = (body.readAll tail).2.length := congrArg List.length hrest
    simp only [parsed]
    omega
  simp only [List.flatMap_nil, List.append_nil] at hdata hwritten
  obtain ⟨i, dataOut, written⟩ := l
  simp only at hi hdata hwritten
  rw [hi, hdata, hwritten]

/-- A round keeps what the loop and the rest add up to. -/
theorem Reached.step {tail data reply : Bytes} {l : Loop} {consumed : ℕ} (h : Reached tail l)
    (hs : body (tail.drop l.i) = some (consumed, data, reply)) :
    Reached tail ⟨l.i + consumed, l.dataOut ++ data, l.written ++ reply⟩ := by
  obtain ⟨hle, hdata, hwritten, hrest⟩ := h
  have hlen : (tail.drop l.i).length = tail.length - l.i := List.length_drop
  have hconsumed := body_stable.le hs
  rw [body_stable.readAll_some hs, List.drop_drop] at hdata hwritten hrest
  refine ⟨?_, ?_, ?_, hrest⟩
  · dsimp only
    omega
  · rw [List.append_assoc]
    exact hdata
  · rw [List.append_assoc]
    exact hwritten

theorem parseLoop_correct (tail : Bytes) : (parseLoop tail).Correct (Reached tail)
    (fun l => tail.length - l.i) (· = parsed tail) := by
  refine ⟨?_, ?_, ?_⟩
  · intro l _ hc
    have hi : l.i < tail.length := of_decide_eq_true hc
    omega
  · intro l hl hc
    have hi : l.i < tail.length := of_decide_eq_true hc
    rw [parseLoop_body hi]
    cases hs : body (tail.drop l.i) with
    | none => exact ⟨_, rfl, hl.eq_parsed hs⟩
    | some x =>
        obtain ⟨consumed, data, reply⟩ := x
        have hpos := body_stable.pos hs
        refine ⟨_, rfl, hl.step hs, ?_⟩
        dsimp only
        omega
  · intro l hl hc
    have hi : ¬ l.i < tail.length := of_decide_eq_false hc
    have hall : tail.drop l.i = [] := List.drop_eq_nil_of_le (Nat.le_of_not_lt hi)
    exact hl.eq_parsed (by rw [hall]; rfl)

/-- **The loop ends** after at most as many rounds as there are bytes, within `tail`. -/
theorem parse_eq (tail : Bytes) : parse tail = .ok (parsed tail, (body.readAll tail).2) := by
  have hstart : Reached tail ⟨0, [], []⟩ := ⟨Nat.zero_le _, rfl, rfl, rfl⟩
  obtain ⟨l, hrun, rfl⟩ := (parseLoop_correct tail).run hstart (Nat.sub_le _ _)
  have hle : (parsed tail).i ≤ tail.length := Nat.sub_le _ _
  have hrest : tail.drop (parsed tail).i = (body.readAll tail).2 := Reader.drop_readAll body tail
  simp only [parse, hrun, splitOff_eq_ok hle, hrest, bind, Except.bind]

example : parse [97, IAC, IAC, IAC, WILL, 1, IAC, SB, 24, IAC] =
    .ok (⟨6, [97, 0xFF], [IAC, DONT, 1]⟩, [IAC, SB, 24, IAC]) := rfl

end Indexed

open Indexed (parsed)

/-- The read arm runs this loop. -/
theorem readArm_eq_parse (d : TelnetDriver) {read : Bytes} (hne : read ≠ []) :
    ∃ l leftover, Indexed.parse (d.tail ++ read) = .ok (l, leftover) ∧
      readArm d read = .ok
        { tail := leftover
          outputs := if l.dataOut = [] then d.outputs else d.outputs ++ [l.dataOut]
          written := d.written ++ l.written } :=
  ⟨_, _, Indexed.parse_eq _, readArm_eq d hne⟩

/-! ### What a round takes -/

/-- The blocks that a round of the loop may take, with the data and the reply: a data byte, plain or
escaped; a negotiation, which is refused; another command of two bytes; a subnegotiation up to the
first `IAC SE`. -/
inductive Taken : Block → Prop
  | plain (b : UInt8) (hb : b ≠ IAC) : Taken ([b], [b], [])
  | escaped : Taken (escape [0xFF], [0xFF], [])
  | negotiation (n : Negotiation) : Taken (n.encode, [], n.reply)
  | command (c : Command) : Taken ([IAC, c.code], [], [])
  | sub (payload : Bytes) (hend : ¬ [IAC, SE] <:+: payload ++ [IAC]) :
      Taken (IAC :: SB :: (payload ++ [IAC, SE]), [], [])

theorem findSe_cons {a : UInt8} {s : Bytes} (h : ¬ (a = IAC ∧ s.head? = some SE)) (i : ℕ) :
    findSe i (a :: s) = findSe (i + 1) s := by
  by_cases ha : a = IAC
  · subst ha
    exact findSe_iac (fun hs => h ⟨rfl, hs⟩) i
  · exact findSe_of_ne ha i s

/-- The search finds the first `IAC SE`. -/
theorem findSe_first {s : Bytes} {i n : ℕ} {w : Bytes} (h : findSe i s = (n, w)) (hn : n ≠ 0) :
    ∃ payload rest, s = payload ++ [IAC, SE] ++ rest ∧ n = i + payload.length + 2 ∧ w = [] ∧
      ¬ [IAC, SE] <:+: payload ++ [IAC] := by
  induction s generalizing i with
  | nil =>
      obtain ⟨rfl, -⟩ := Prod.mk.inj h
      exact absurd rfl hn
  | cons a s ih =>
      by_cases hend : a = IAC ∧ s.head? = some SE
      · obtain ⟨rfl, hs⟩ := hend
        obtain ⟨rest, rfl⟩ := List.head?_eq_some_iff.1 hs
        rw [findSe_end] at h
        obtain ⟨rfl, rfl⟩ := Prod.mk.inj h
        exact ⟨[], rest, rfl, rfl, rfl, by decide⟩
      · rw [findSe_cons hend] at h
        obtain ⟨payload, rest, hs, hlen, hw, hnot⟩ := ih h
        refine ⟨a :: payload, rest, by rw [hs]; rfl, ?_, hw, ?_⟩
        · rw [List.length_cons]
          omega
        · rw [List.cons_append, pair_infix_cons, not_or]
          refine ⟨?_, hnot⟩
          rintro ⟨rfl, hhead⟩
          -- the payload starts as the input does
          obtain ⟨t, ht⟩ := List.head?_eq_some_iff.1 hhead
          refine hend ⟨rfl, ?_⟩
          have hsplit : s = payload ++ [IAC] ++ SE :: rest := by simp [hs]
          rw [hsplit, ht]
          rfl

/-- The search fails only where there is no `IAC SE`. -/
theorem findSe_zero {s : Bytes} {i : ℕ} (h : (findSe i s).1 = 0) : ¬ [IAC, SE] <:+: s := by
  induction s generalizing i with
  | nil => exact fun hs => absurd (List.eq_nil_of_infix_nil hs) (List.cons_ne_nil _ _)
  | cons a s ih =>
      by_cases hend : a = IAC ∧ s.head? = some SE
      · obtain ⟨rfl, hs⟩ := hend
        obtain ⟨rest, rfl⟩ := List.head?_eq_some_iff.1 hs
        rw [findSe_end] at h
        exact absurd h (Nat.succ_ne_zero _)
      · rw [findSe_cons hend] at h
        rw [pair_infix_cons, not_or]
        exact ⟨hend, ih h⟩

/-- The search ends with the first `IAC SE` that comes. -/
theorem findSe_extend {s : Bytes} (h : ¬ [IAC, SE] <:+: s) (i : ℕ) :
    findSe i (s ++ [IAC, SE]) = (i + s.length + 2, []) := by
  induction s generalizing i with
  | nil => rfl
  | cons a s ih =>
      rw [pair_infix_cons, not_or] at h
      have hstart : ¬ (a = IAC ∧ (s ++ [IAC, SE]).head? = some SE) := by
        rintro ⟨ha, hhead⟩
        cases s with
        | nil => exact absurd hhead (by decide)
        | cons b s => exact h.1 ⟨ha, hhead⟩
      rw [List.cons_append, findSe_cons hstart, ih h.2, List.length_cons]
      exact Prod.ext (by dsimp only; omega) rfl

/-- The bytes that open a negotiation, a subnegotiation or an escaped byte, and those that stand
alone. -/
theorem verb_cases (verb : UInt8) : verb = IAC ∨ (∃ v : Verb, verb = v.code) ∨ verb = SB ∨
    ∃ c : Command, verb = c.code := by
  by_cases htwo : verb ∈ [IAC, DO, DONT, WILL, WONT, SB]
  · simp only [List.mem_cons, List.not_mem_nil, or_false] at htwo
    rcases htwo with h | h | h | h | h | h
    · exact .inl h
    · exact .inr (.inl ⟨.do', h⟩)
    · exact .inr (.inl ⟨.dont, h⟩)
    · exact .inr (.inl ⟨.will, h⟩)
    · exact .inr (.inl ⟨.wont, h⟩)
    · exact .inr (.inr (.inl h))
  · exact .inr (.inr (.inr ⟨⟨verb, htwo⟩, rfl⟩))

/-- A command that has begun and is not complete: neither it nor any beginning of it is answered,
and there are bytes with which it is taken as a whole. -/
structure Unfinished (t : Bytes) : Prop where
  iac : t.head? = some IAC
  waits : ∀ p, p <+: t → Indexed.processIacBlock p = .ok (0, [])
  completes : ∃ more reply,
    Indexed.processIacBlock (t ++ more) = .ok ((t ++ more).length, reply)

theorem simple3_zero {s w : Bytes} {verb : UInt8} (h : simple3 s verb = (0, w)) : w = [] := by
  unfold simple3 at h
  split at h
  · cases h
  · exact (Prod.mk.inj h).2.symm

/-- Where nothing is taken, nothing is answered. -/
theorem processIacBlock_zero {s w : Bytes} (h : processIacBlock s = (0, w)) : w = [] := by
  match s with
  | [] | [_] => exact (Prod.mk.inj h).2.symm
  | a :: verb :: rest =>
      have hend := findSe_reply rest 2
      simp only [processIacBlock] at h
      split_ifs at h
      · exact (Prod.mk.inj h).2.symm
      · cases h
      · exact simple3_zero h
      · exact simple3_zero h
      · exact simple3_zero h
      · exact simple3_zero h
      · rw [h] at hend
        exact hend
      · cases h

/-- What is not taken is not taken in parts either. -/
theorem Unfinished.intro {t more reply : Bytes} (hiac : t.head? = some IAC)
    (hzero : (processIacBlock t).1 = 0)
    (hmore : processIacBlock (t ++ more) = ((t ++ more).length, reply)) : Unfinished t where
  iac := hiac
  waits := by
    rintro p ⟨q, rfl⟩
    obtain ⟨n, w, hp⟩ : ∃ n w, processIacBlock p = (n, w) := ⟨_, _, rfl⟩
    have hn : n = 0 := by
      by_contra hn
      rw [(processIacBlock_stable hp hn q).1] at hzero
      exact hn hzero
    subst hn
    rw [Indexed.processIacBlock_eq, hp, processIacBlock_zero hp]
  completes := ⟨more, reply, by rw [Indexed.processIacBlock_eq, hmore]⟩

/-- A subnegotiation is taken up to the first `IAC SE`, or it is not complete. -/
theorem body_sub (s : Bytes) :
    (∃ payload t, s = payload ++ [IAC, SE] ++ t ∧ ¬ [IAC, SE] <:+: payload ++ [IAC] ∧
      body (IAC :: SB :: s) = some ((IAC :: SB :: (payload ++ [IAC, SE])).length, [], [])) ∨
    body (IAC :: SB :: s) = none ∧ Unfinished (IAC :: SB :: s) := by
  obtain ⟨n, w, hf⟩ : ∃ n w, findSe 2 s = (n, w) := ⟨_, _, rfl⟩
  have hp : processIacBlock (IAC :: SB :: s) = (n, w) := hf
  rw [body_iac hp]
  by_cases hn : n = 0
  · subst hn
    right
    have hnone : ¬ [IAC, SE] <:+: s := findSe_zero (by rw [hf])
    have hmore : processIacBlock (IAC :: SB :: s ++ [IAC, SE]) =
        ((IAC :: SB :: s ++ [IAC, SE]).length, []) := by
      refine (findSe_extend hnone 2).trans (Prod.ext ?_ rfl)
      simp only [List.length_append, List.length_cons, List.length_nil]
      omega
    exact ⟨rfl, Unfinished.intro rfl (by rw [hp]) hmore⟩
  · left
    obtain ⟨payload, t, hs, hlen, rfl, hend⟩ := findSe_first hf hn
    refine ⟨payload, t, hs, hend, ?_⟩
    have hne : SB ≠ IAC := by decide
    have hsb : ¬ (n = 2 ∧ (SB :: s).head? = some IAC) := fun h => hne (Option.some_inj.1 h.2)
    have hblock : n = (IAC :: SB :: (payload ++ [IAC, SE])).length := by
      simp only [List.length_append, List.length_cons, List.length_nil]
      omega
    rw [if_neg hn, if_neg hsb, hblock]

/-- **What a round does**: it takes a block, or it stops at the end or in front of a command that is
not complete. -/
theorem body_cases (s : Bytes) : s = [] ∨
    (∃ block rest, s = block.1 ++ rest ∧ Taken block ∧ body s = some (block.1.length, block.2)) ∨
    body s = none ∧ Unfinished s := by
  match s with
  | [] => exact .inl rfl
  | b :: rest =>
      right
      by_cases hb : b = IAC
      · subst hb
        cases rest with
        | nil =>
            have hmore : processIacBlock ([IAC] ++ [IAC]) = (2, []) := rfl
            exact .inr ⟨rfl, Unfinished.intro rfl rfl hmore⟩
        | cons verb rest =>
            rcases verb_cases verb with rfl | ⟨v, rfl⟩ | rfl | ⟨c, rfl⟩
            · exact .inl ⟨(escape [0xFF], [0xFF], []), rest, rfl, .escaped, rfl⟩
            · cases rest with
              | nil =>
                  have hnone : processIacBlock [IAC, v.code] = (0, []) := by cases v <;> rfl
                  have hmore : processIacBlock ([IAC, v.code] ++ [0]) = (3, _) :=
                    processIacBlock_negotiation ⟨v, 0⟩
                  refine .inr ⟨?_, Unfinished.intro rfl (by rw [hnone]) hmore⟩
                  rw [body_iac hnone]
                  rfl
              | cons option rest =>
                  exact .inl ⟨(Negotiation.encode ⟨v, option⟩, [], Negotiation.reply ⟨v, option⟩),
                    rest, rfl, .negotiation ⟨v, option⟩,
                    (body_append (body_negotiation ⟨v, option⟩) rest).1⟩
            · rcases body_sub rest with ⟨payload, t, rfl, hend, hbody⟩ | hbegun
              · exact .inl ⟨(IAC :: SB :: (payload ++ [IAC, SE]), [], []), t, rfl,
                  .sub payload hend, hbody⟩
              · exact .inr hbegun
            · exact .inl ⟨([IAC, c.code], [], []), rest, rfl, .command c,
                (body_append (body_command c) rest).1⟩
      · refine .inl ⟨([b], [b], []), rest, rfl, .plain b hb, ?_⟩
        rw [body, if_neg hb]
        rfl

/-! ### The loop is safe -/

/-- A round takes one of the blocks, as it stands in the input. -/
theorem taken_of_sliced {s : Bytes} {n : ℕ} {x : Block} (h : body.sliced s = some (n, x)) :
    Taken x := by
  obtain ⟨hs, hx⟩ := Reader.sliced_eq_some.1 h
  rcases body_cases s with rfl | ⟨block, rest, rfl, htaken, hbody⟩ | ⟨hnone, -⟩
  · cases hs
  · rw [hbody] at hs
    obtain ⟨rfl, hreply⟩ := Prod.mk.inj (Option.some_inj.1 hs)
    rw [List.take_left] at hx
    have hblock : x = block := Prod.ext hx hreply.symm
    rw [hblock]
    exact htaken
  · rw [hnone] at hs
    cases hs

/-- What the loop hands on and answers is what the blocks stand for that it has taken. -/
theorem parsed_blocks (tail : Bytes) : ∃ blocks : List Block,
    tail = blocks.flatMap Prod.fst ++ (body.readAll tail).2 ∧ (∀ x ∈ blocks, Taken x) ∧
      (parsed tail).dataOut = payload blocks ∧
      (parsed tail).written = blocks.flatMap fun x => x.2.2 := by
  refine ⟨(body.sliced.readAll tail).1, (Reader.readAll_parts body tail).symm, ?_, ?_, ?_⟩
  · intro x hx
    obtain ⟨s, n, hs⟩ := Reader.mem_readAll hx
    exact taken_of_sliced hs
  · simp only [parsed, Reader.readAll_sliced body tail, List.flatMap_map]
    rfl
  · simp only [parsed, Reader.readAll_sliced body tail, List.flatMap_map]

/-- The loop leaves nothing, or a command that is not complete. -/
theorem unfinished_rest (tail : Bytes) :
    (body.readAll tail).2 = [] ∨ Unfinished (body.readAll tail).2 := by
  have hnone := body_stable.rest tail
  rcases body_cases (body.readAll tail).2 with hnil | ⟨block, rest, -, -, hbody⟩ | ⟨-, hbegun⟩
  · exact .inl hnil
  · rw [hbody] at hnone
    cases hnone
  · exact .inr hbegun

/-- What comes later is parsed behind what is left. -/
theorem parsed_append (tail later : Bytes) :
    let l := parsed tail
    let l' := parsed ((body.readAll tail).2 ++ later)
    parsed (tail ++ later) =
      ⟨l.i + l'.i, l.dataOut ++ l'.dataOut, l.written ++ l'.written⟩ := by
  have hrest := Reader.length_rest_le body tail
  have hrest' := Reader.length_rest_le body ((body.readAll tail).2 ++ later)
  simp only [parsed, body_stable.readAll_append tail later, List.flatMap_append, Loop.mk.injEq,
    and_true]
  rw [List.length_append] at hrest' ⊢
  rw [List.length_append]
  omega

/-- A block of two bytes whose second byte is `IAC` is an escaped byte. -/
theorem escaped_of_two {input reply : Bytes} (h : processIacBlock input = (2, reply))
    (hsecond : input[1]? = some IAC) : input.take 2 = escape [0xFF] ∧ reply = [] := by
  match input with
  | [] | [_] => cases hsecond
  | a :: b :: rest =>
      obtain rfl : b = IAC := Option.some_inj.1 hsecond
      by_cases ha : a = IAC
      · subst ha
        exact ⟨rfl, (Prod.mk.inj h).2.symm⟩
      · rw [processIacBlock, if_pos ha] at h
        cases h

/-- **The loop is safe and makes progress.**  A block is read within its slice; the loop over `tail`
ends within as many rounds as there are bytes and cuts `tail` where it has come to; what it hands
on and answers is what the blocks stand for that it has taken; and it leaves a command that is not
complete, if anything, which is parsed together with what comes later. -/
theorem parse_loop_safe (tail : Bytes) :
    (∀ input, ∃ consumed reply, Indexed.processIacBlock input = .ok (consumed, reply) ∧
      consumed ≤ input.length ∧
      (consumed = 2 → input[1]? = some IAC → input.take 2 = escape [0xFF] ∧ reply = [])) ∧
    ∃ l leftover, Indexed.parse tail = .ok (l, leftover) ∧ l.i ≤ tail.length ∧
      leftover = tail.drop l.i ∧
      (∃ blocks : List Block, tail = blocks.flatMap Prod.fst ++ leftover ∧
        (∀ x ∈ blocks, Taken x) ∧ l.dataOut = payload blocks ∧
        l.written = blocks.flatMap fun x => x.2.2) ∧
      (leftover = [] ∨ Unfinished leftover) ∧
      ∀ later, ∃ l' rest, Indexed.parse (leftover ++ later) = .ok (l', rest) ∧
        Indexed.parse (tail ++ later) =
          .ok (⟨l.i + l'.i, l.dataOut ++ l'.dataOut, l.written ++ l'.written⟩, rest) := by
  refine ⟨?_, parsed tail, (body.readAll tail).2, Indexed.parse_eq tail, Nat.sub_le _ _,
    (Reader.drop_readAll body tail).symm, parsed_blocks tail, unfinished_rest tail, ?_⟩
  · intro input
    obtain ⟨n, reply, hp⟩ : ∃ n reply, processIacBlock input = (n, reply) := ⟨_, _, rfl⟩
    refine ⟨n, reply, by rw [Indexed.processIacBlock_eq, hp], ?_, ?_⟩
    · by_cases hn : n = 0
      · omega
      · exact (processIacBlock_stable hp hn []).2
    · rintro rfl hsecond
      exact escaped_of_two hp hsecond
  · intro later
    refine ⟨_, _, Indexed.parse_eq _, ?_⟩
    rw [Indexed.parse_eq, parsed_append, body_stable.readAll_append tail later]

end Telnet

end TermHub
