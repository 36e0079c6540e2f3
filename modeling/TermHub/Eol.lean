/-
**Line ends, and the serial driver.**

`transform` of `termhub-drivers/src/eol.rs` and the two working arms of `SerialDriver::run`.  The
driver converts chunk by chunk, and `transform` recognises `\r\n` within a chunk only: a pair that
is cut is converted as a lone `\r` and a lone `\n`.

Main definitions:

* `EolMode.single`, `EolMode.loop`, `transform` — the conversion;
* `SerialDriver`, `readArm`, `inputArm` — the driver;
* `Severs` — a cut between `\r` and `\n`.

Main results:

* `loop_append` — where the two parts of an input are converted as the whole is;
* `transform_chunks_iff` — **the chunks are converted as the stream is exactly if no pair that the
  mode keeps is cut**;
* `eol_independent_iff` — the same for two runs of the driver.
-/

import TermHub.Drivers
import TermHub.RunLoop

set_option relaxedAutoImplicit false
set_option autoImplicit false

namespace TermHub

open Transition
open Runner (Bytes DriverError)

def CR : UInt8 := 0x0D
def LF : UInt8 := 0x0A

/-! ### Conversion -/

namespace EolMode

/-- The mode recognises `\r\n`. -/
def Pairs : EolMode → Prop
  | lf => True
  | crlf => True
  | _ => False

instance (mode : EolMode) : Decidable mode.Pairs := by
  cases mode <;> unfold Pairs <;> infer_instance

/-- What the loop puts out for a byte that it takes alone. -/
def single (mode : EolMode) (b : UInt8) : Bytes :=
  match mode with
  | asIs => [b]
  | lf => if b = CR then [LF] else [b]
  | crlf => if b = CR ∨ b = LF then [CR, LF] else [b]
  | cr => if b = LF then [CR] else [b]

/-- The loop of `transform`, from `bytes[i..]` on. -/
def loop (mode : EolMode) : Bytes → Bytes
  | [] => []
  | [b] => mode.single b
  | b :: c :: rest =>
    if mode.Pairs ∧ b = CR ∧ c = LF then CR :: LF :: loop mode rest
    else mode.single b ++ loop mode (c :: rest)

end EolMode

def transform (mode : EolMode) (input : Bytes) : Bytes :=
  if mode = .asIs ∨ input = [] then input else mode.loop input

/-! ### The serial driver -/

/-- What is kept of the driver: its two modes, the `Output` events and the bytes written to the
port. -/
structure SerialDriver where
  inputEol : EolMode
  outputEol : EolMode
  outputs : List Bytes
  written : Bytes
  deriving DecidableEq, Repr

namespace SerialDriver

/-- The driver after it has connected. -/
def new (inputEol outputEol : EolMode) : SerialDriver := ⟨inputEol, outputEol, [], []⟩

/-- The read arm. -/
def readArm (d : SerialDriver) (chunk : Bytes) : Except DriverError SerialDriver :=
  if chunk = [] then .error (.ioLost "serial EOF")
  else .ok { d with outputs := d.outputs ++ [transform d.outputEol chunk] }

/-- The write arm. -/
def inputArm (d : SerialDriver) (b : Bytes) : SerialDriver :=
  { d with written := d.written ++ transform d.inputEol b }

/-- What `select!` can choose, apart from what ends the run: the port or the input. -/
inductive Turn
  | read (chunk : Bytes)
  | input (b : Bytes)
  deriving DecidableEq, Repr

/-- The chunks read from the port. -/
def reads (turns : List Turn) : List Bytes :=
  turns.filterMap fun
    | .read chunk => some chunk
    | .input _ => none

/-- The chunks of input. -/
def inputs (turns : List Turn) : List Bytes :=
  turns.filterMap fun
    | .input b => some b
    | .read _ => none

/-- A turn of the driver; it has returned after an error. -/
def step (d : SerialDriver) : Turn → Option SerialDriver
  | .read chunk => (d.readArm chunk).toOption
  | .input b => some (d.inputArm b)

end SerialDriver

/-! ### Converting in parts -/

/-- A mode that does not recognise `\r\n` converts byte by byte. -/
theorem EolMode.loop_asIs (s : Bytes) : asIs.loop s = s := by
  fun_induction loop asIs s with
  | case1 => rfl
  | case2 b => rfl
  | case3 b c rest h ih => exact h.1.elim
  | case4 b c rest h ih => rw [ih]; rfl

theorem transform_eq_loop (mode : EolMode) (input : Bytes) :
    transform mode input = mode.loop input := by
  unfold transform
  split
  · rename_i h
    rcases h with rfl | rfl
    · exact (EolMode.loop_asIs input).symm
    · rfl
  · rfl

namespace EolMode

variable {mode : EolMode}

theorem loop_pair (hm : mode.Pairs) (s : Bytes) :
    mode.loop (CR :: LF :: s) = CR :: LF :: mode.loop s := by
  rw [loop, if_pos ⟨hm, rfl, rfl⟩]

/-- A byte that does not start a pair is taken alone. -/
theorem loop_cons {b : UInt8} {s : Bytes} (h : ¬ (mode.Pairs ∧ b = CR ∧ s.head? = some LF)) :
    mode.loop (b :: s) = mode.single b ++ mode.loop s := by
  cases s with
  | nil => exact (List.append_nil _).symm
  | cons c s => rw [loop, if_neg fun hp => h ⟨hp.1, hp.2.1, congrArg some hp.2.2⟩]

/-- **Two parts of an input are converted as the whole is** unless the cut is within a pair. -/
theorem loop_append {s t : Bytes}
    (h : mode.Pairs → ¬ (s.getLast? = some CR ∧ t.head? = some LF)) :
    mode.loop (s ++ t) = mode.loop s ++ mode.loop t := by
  fun_induction loop mode s with
  | case1 => rfl
  | case2 b =>
      refine loop_cons fun hp => h hp.1 ⟨?_, hp.2.2⟩
      rw [hp.2.1]
      rfl
  | case3 b c s hpair ih =>
      obtain ⟨hm, rfl, rfl⟩ := hpair
      have hrest : mode.Pairs → ¬ (s.getLast? = some CR ∧ t.head? = some LF) := by
        intro hm hcut
        refine h hm ⟨?_, hcut.2⟩
        cases s with
        | nil => cases hcut.1
        | cons d s => exact hcut.1
      rw [List.cons_append, List.cons_append, loop_pair hm, ih hrest]
      rfl
  | case4 b c s hpair ih =>
      rw [List.cons_append, loop_cons, ih h, List.append_assoc]
      exact fun hp => hpair ⟨hp.1, hp.2.1, Option.some_inj.1 hp.2.2⟩

/-- **A pair that is cut is converted to one `\n` more.** -/
theorem count_loop_cut (hm : mode.Pairs) (s t : Bytes) :
    (mode.loop (s ++ [CR]) ++ mode.loop (LF :: t)).count LF =
      (mode.loop (s ++ [CR] ++ LF :: t)).count LF + 1 := by
  have hwhole : mode.loop (s ++ [CR] ++ LF :: t) = mode.loop s ++ CR :: LF :: mode.loop t := by
    rw [List.append_assoc, List.singleton_append, loop_append, loop_pair hm]
    simp [CR, LF]
  have hleft : mode.loop (s ++ [CR]) = mode.loop s ++ mode.single CR := by
    rw [loop_append]
    · rfl
    · simp [CR, LF]
  have hright : mode.loop (LF :: t) = mode.single LF ++ mode.loop t :=
    loop_cons fun h => absurd h.2.1 (by decide)
  have hcr : (mode.single CR).count LF = 1 := by
    cases mode <;> first | rfl | exact hm.elim
  have hlf : (mode.single LF).count LF = 1 := by
    cases mode <;> first | rfl | exact hm.elim
  rw [hwhole, hleft, hright]
  simp only [List.count_append, hcr, hlf, List.count_cons]
  have hne : (CR == LF) = false := rfl
  simp only [hne, beq_self_eq_true]
  simp only [if_true, Bool.false_eq_true, if_false]
  omega

end EolMode

/-! ### Converting chunk by chunk -/

/-- A chunk ends with `\r`, and the next byte of the stream is `\n`. -/
def Severs (chunks : List Bytes) : Prop :=
  ∃ before chunk after, chunks = before ++ chunk :: after ∧ chunk.getLast? = some CR ∧
    after.flatten.head? = some LF

theorem severs_cons (chunk : Bytes) (chunks : List Bytes) : Severs (chunk :: chunks) ↔
    (chunk.getLast? = some CR ∧ chunks.flatten.head? = some LF) ∨ Severs chunks := by
  constructor
  · rintro ⟨before, c, after, hsplit, hcut⟩
    cases before with
    | nil =>
        obtain ⟨rfl, rfl⟩ := List.cons.inj hsplit
        exact .inl hcut
    | cons b before => exact .inr ⟨before, c, after, (List.cons.inj hsplit).2, hcut⟩
  · rintro (hcut | ⟨before, c, after, rfl, hcut⟩)
    · exact ⟨[], chunk, chunks, rfl, hcut⟩
    · exact ⟨chunk :: before, c, after, rfl, hcut⟩

theorem not_severs_nil : ¬ Severs [] := by
  rintro ⟨before, c, after, h, -⟩
  cases before <;> cases h

/-- The chunks add up to the stream where no pair is cut. -/
theorem transform_chunks {mode : EolMode} {chunks : List Bytes}
    (h : mode.Pairs → ¬ Severs chunks) :
    chunks.flatMap (transform mode) = transform mode chunks.flatten := by
  induction chunks with
  | nil => exact (transform_eq_loop mode []).symm
  | cons c cs ih =>
      simp only [severs_cons, not_or] at h
      rw [List.flatMap_cons, ih fun hm => (h hm).2, List.flatten_cons]
      simp only [transform_eq_loop]
      exact (EolMode.loop_append fun hm => (h hm).1).symm

/-- Each pair that is cut adds a `\n`. -/
theorem count_chunks {mode : EolMode} (hm : mode.Pairs) (chunks : List Bytes) :
    (transform mode chunks.flatten).count LF ≤ (chunks.flatMap (transform mode)).count LF ∧
      (Severs chunks →
        (transform mode chunks.flatten).count LF < (chunks.flatMap (transform mode)).count LF) := by
  induction chunks with
  | nil => exact ⟨by simp [transform_eq_loop, EolMode.loop], fun h => absurd h not_severs_nil⟩
  | cons c cs ih =>
      rw [severs_cons, List.flatMap_cons, List.flatten_cons, List.count_append]
      simp only [transform_eq_loop] at ih ⊢
      obtain ⟨hle, hlt⟩ := ih
      by_cases hcut : c.getLast? = some CR ∧ cs.flatten.head? = some LF
      · obtain ⟨s, rfl⟩ := List.getLast?_eq_some_iff.1 hcut.1
        obtain ⟨t, ht⟩ := List.head?_eq_some_iff.1 hcut.2
        have hmore := EolMode.count_loop_cut hm s t
        rw [← ht, List.count_append] at hmore
        constructor
        · omega
        · intro _
          omega
      · rw [EolMode.loop_append fun _ => hcut, List.count_append]
        constructor
        · omega
        · intro h
          have := hlt (h.resolve_left hcut)
          omega

/-- **The chunks are converted as the stream is exactly if no pair that the mode keeps is cut.** -/
theorem transform_chunks_iff (mode : EolMode) (chunks : List Bytes) :
    chunks.flatMap (transform mode) = transform mode chunks.flatten ↔
      (mode.Pairs → ¬ Severs chunks) := by
  refine ⟨fun heq hm hcut => ?_, transform_chunks⟩
  have hlt := (count_chunks hm chunks).2 hcut
  rw [heq] at hlt
  exact Nat.lt_irrefl _ hlt

/-! ### Runs of the driver -/

namespace SerialDriver

/-- What a run has put out and written: its chunks, one by one. -/
theorem exec_eq {inputEol outputEol : EolMode} {turns : List Turn} {d : SerialDriver}
    (h : exec step (new inputEol outputEol) turns = some d) :
    d.outputs.flatten = (reads turns).flatMap (transform outputEol) ∧
      d.written = (inputs turns).flatMap (transform inputEol) := by
  have key : d.inputEol = inputEol ∧ d.outputEol = outputEol ∧
      d.outputs.flatten = (reads turns).flatMap (transform outputEol) ∧
      d.written = (inputs turns).flatMap (transform inputEol) := by
    refine exec_invariant (I := fun turns d => d.inputEol = inputEol ∧ d.outputEol = outputEol ∧
      d.outputs.flatten = (reads turns).flatMap (transform outputEol) ∧
      d.written = (inputs turns).flatMap (transform inputEol)) ⟨rfl, rfl, rfl, rfl⟩ ?_ h
    rintro turns d a e ⟨hin, hout, houtputs, hwritten⟩ hs
    cases a with
    | input b =>
        obtain rfl := Option.some_inj.1 hs
        refine ⟨hin, hout, ?_, ?_⟩
        · simpa [inputArm, reads] using houtputs
        · simp [inputArm, inputs, hwritten, hin]
    | read chunk =>
        simp only [step, readArm] at hs
        split at hs
        · cases hs
        · obtain rfl := Option.some_inj.1 hs
          refine ⟨hin, hout, ?_, ?_⟩
          · simp [reads, houtputs, hout]
          · simpa [inputs] using hwritten
  exact key.2.2

end SerialDriver

/-- **Line ends do not depend on the chunks exactly if no pair is cut**: two runs of the driver that
read the same stream put out what the whole stream is converted to exactly if neither of them cuts a
pair that the mode keeps, and so for what they write. -/
theorem eol_independent_iff (inputEol outputEol : EolMode) (as bs : List SerialDriver.Turn)
    (d e : SerialDriver)
    (hd : exec SerialDriver.step (.new inputEol outputEol) as = some d)
    (he : exec SerialDriver.step (.new inputEol outputEol) bs = some e)
    (hread : (SerialDriver.reads as).flatten = (SerialDriver.reads bs).flatten)
    (hinput : (SerialDriver.inputs as).flatten = (SerialDriver.inputs bs).flatten) :
    ((d.outputs.flatten = e.outputs.flatten ∧
        e.outputs.flatten = transform outputEol (SerialDriver.reads as).flatten) ↔
      (outputEol.Pairs → ¬ Severs (SerialDriver.reads as) ∧ ¬ Severs (SerialDriver.reads bs))) ∧
    ((d.written = e.written ∧
        e.written = transform inputEol (SerialDriver.inputs as).flatten) ↔
      (inputEol.Pairs →
        ¬ Severs (SerialDriver.inputs as) ∧ ¬ Severs (SerialDriver.inputs bs))) := by
  have hboth : ∀ (mode : EolMode) (cs cs' : List Bytes), cs.flatten = cs'.flatten →
      ((cs.flatMap (transform mode) = cs'.flatMap (transform mode) ∧
          cs'.flatMap (transform mode) = transform mode cs.flatten) ↔
        (mode.Pairs → ¬ Severs cs ∧ ¬ Severs cs')) := by
    intro mode cs cs' hsame
    have hcs := transform_chunks_iff mode cs
    have hcs' := transform_chunks_iff mode cs'
    rw [← hsame] at hcs'
    constructor
    · rintro ⟨hd, he⟩ hm
      exact ⟨hcs.1 (hd.trans he) hm, hcs'.1 he hm⟩
    · intro h
      have he := hcs'.2 fun hm => (h hm).2
      exact ⟨(hcs.2 fun hm => (h hm).1).trans he.symm, he⟩
  obtain ⟨houtd, hwrittend⟩ := SerialDriver.exec_eq hd
  obtain ⟨houte, hwrittene⟩ := SerialDriver.exec_eq he
  rw [houtd, hwrittend, houte, hwrittene]
  exact ⟨hboth outputEol _ _ hread, hboth inputEol _ _ hinput⟩

/-- Line ends with a cut before a pair, and without a cut. -/
theorem eol_independent_pair : ∃ d e,
    exec SerialDriver.step (.new .crlf .lf) [.read [97], .read [CR, LF], .input [98, CR]] = some d ∧
      exec SerialDriver.step (.new .crlf .lf) [.input [98, CR], .read [97, CR, LF]] = some e ∧
      d.outputs.flatten = e.outputs.flatten ∧ d.written = e.written := by
  refine ⟨_, _, rfl, rfl, ?_⟩
  obtain ⟨hout, hwritten⟩ := eol_independent_iff .crlf .lf
    [.read [97], .read [CR, LF], .input [98, CR]] [.input [98, CR], .read [97, CR, LF]] _ _ rfl rfl
    rfl rfl
  exact ⟨(hout.2 fun _ => by simp [SerialDriver.reads, severs_cons, not_severs_nil, CR, LF]).1,
    (hwritten.2 fun _ => by simp [SerialDriver.inputs, severs_cons, not_severs_nil]).1⟩

/-- **A pair that comes in two chunks is written as two line ends.** -/
theorem eol_depends_on_chunks : ¬ ∀ (inputEol outputEol : EolMode)
    (as bs : List SerialDriver.Turn) (d e : SerialDriver),
    exec SerialDriver.step (.new inputEol outputEol) as = some d →
    exec SerialDriver.step (.new inputEol outputEol) bs = some e →
    (SerialDriver.reads as).flatten = (SerialDriver.reads bs).flatten →
    (SerialDriver.inputs as).flatten = (SerialDriver.inputs bs).flatten →
    d.outputs.flatten = e.outputs.flatten ∧ d.written = e.written := by
  intro h
  have hrun := h .crlf .lf [.input [97, CR], .input [LF]] [.input [97, CR, LF]]
    ⟨.crlf, .lf, [], [97, CR, LF, CR, LF]⟩ ⟨.crlf, .lf, [], [97, CR, LF]⟩ rfl rfl rfl rfl
  exact absurd hrun.2 (by decide)

end TermHub
