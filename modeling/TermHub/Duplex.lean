/-
**Loops that take turns and carry out what a turn asks for.**

A machine is opened, and then takes one turn after the other.  A turn asks for *effects*: words to
be written, which go out piece by piece, and events to be sent.  They are carried out in order
before the next turn is taken.  Writing and sending can fail, and a failure ends the machine where
it is.

Main definitions:

* `Effect`, `Machine` — what a turn can ask for, and the turns of a machine;
* `Run`, `Machine.step` — a machine at work, and its transition function;
* `Machine.Asked` — what some turns have asked for;
* `Machine.Ends` — the reasons for which a machine ends.

Main results:

* `Machine.step_stepped` — what a step can be, one case for each thing it can do;
* `Machine.Accounts.of_reachable` — **what has been done and what is left to do is what the turns
  have asked for**, at every suspension point, in the middle of a write and after a failure;
* `Machine.exists_ends` — a machine that has ended has done so for one of the reasons.
-/

import TermHub.Transition

set_option relaxedAutoImplicit false
set_option autoImplicit false

namespace Duplex

open Transition

/-! ### Effects -/

/-- What a turn can ask for. -/
inductive Effect (β ε : Type*)
  | write (bs : List β)
  | send (e : ε)
  deriving DecidableEq, Repr

variable {ω σ τ β ε χ : Type*}

/-- The words among some effects. -/
def words (es : List (Effect β ε)) : List β :=
  es.flatMap fun
    | .write bs => bs
    | .send _ => []

/-- The events among some effects. -/
def sends (es : List (Effect β ε)) : List ε :=
  es.flatMap fun
    | .write _ => []
    | .send e => [e]

@[simp] theorem words_nil : words ([] : List (Effect β ε)) = [] := rfl

@[simp] theorem sends_nil : sends ([] : List (Effect β ε)) = [] := rfl

@[simp] theorem words_write (bs : List β) (es : List (Effect β ε)) :
    words (.write bs :: es) = bs ++ words es := rfl

@[simp] theorem words_send (e : ε) (es : List (Effect β ε)) : words (.send e :: es) = words es :=
  rfl

@[simp] theorem sends_write (bs : List β) (es : List (Effect β ε)) :
    sends (.write bs :: es) = sends es := rfl

@[simp] theorem sends_send (e : ε) (es : List (Effect β ε)) :
    sends (.send e :: es) = e :: sends es := rfl

@[simp] theorem words_append (es fs : List (Effect β ε)) :
    words (es ++ fs) = words es ++ words fs :=
  List.flatMap_append

@[simp] theorem sends_append (es fs : List (Effect β ε)) :
    sends (es ++ fs) = sends es ++ sends fs :=
  List.flatMap_append

@[simp] theorem sends_map_send {γ : Type*} (f : γ → ε) (l : List γ) :
    sends (l.map fun x => (.send (f x) : Effect β ε)) = l.map f := by
  induction l with
  | nil => rfl
  | cons x l ih => rw [List.map_cons, sends_send, ih, List.map_cons]

@[simp] theorem words_map_send {γ : Type*} (f : γ → ε) (l : List γ) :
    words (l.map fun x => (.send (f x) : Effect β ε)) = [] := by
  induction l with
  | nil => rfl
  | cons x l ih => rw [List.map_cons, words_send, ih]

/-! ### Machines -/

/-- A machine: how it is opened, its turns, and what it returns when writing or sending fails. -/
structure Machine (ω σ τ β ε χ : Type*) where
  opening : ω → Except χ (σ × List (Effect β ε))
  turn : σ → τ → Except χ (σ × List (Effect β ε))
  writeError : String → χ
  sendError : χ

/-- Where a machine is; while it runs, `m` is its memory. -/
inductive Phase (σ χ : Type*)
  | opening
  | running (m : σ)
  | ended (r : Except χ Unit)

/-- A machine at work: the effects it has still to carry out, and the histories of its turns, of the
words it has written and of the events it has sent. -/
structure Run (σ τ β ε χ : Type*) where
  phase : Phase σ χ
  todo : List (Effect β ε)
  turns : List τ
  written : List β
  sent : List ε

/-- A machine that has just been started. -/
def Run.init : Run σ τ β ε χ := ⟨.opening, [], [], [], []⟩

/-- What can happen to a machine. -/
inductive Act (ω τ : Type*)
  | opened (o : ω)
  /-- The machine is told to stop. -/
  | stop
  | turn (t : τ)
  /-- The next `n` words go out. -/
  | write (n : ℕ)
  | writeFails (reason : String)
  | send
  | sendFails

namespace Machine

/-- One step: only a machine with nothing to carry out is stopped or takes a turn. -/
def step (M : Machine ω σ τ β ε χ) (s : Run σ τ β ε χ) : Act ω τ → Option (Run σ τ β ε χ)
  | .opened o =>
    match s.phase with
    | .opening =>
      match M.opening o with
      | .ok (m, es) => some { s with phase := .running m, todo := es }
      | .error e => some { s with phase := .ended (.error e) }
    | _ => none
  | .stop =>
    match s.phase, s.todo with
    | .running _, [] => some { s with phase := .ended (.ok ()) }
    | _, _ => none
  | .turn t =>
    match s.phase, s.todo with
    | .running m, [] =>
      match M.turn m t with
      | .ok (m', es) => some { s with phase := .running m', todo := es, turns := s.turns ++ [t] }
      | .error e => some { s with phase := .ended (.error e) }
    | _, _ => none
  | .write n =>
    match s.phase, s.todo with
    | .running _, .write bs :: rest =>
      if n ≤ bs.length then
        some { s with
          todo := if n = bs.length then rest else .write (bs.drop n) :: rest
          written := s.written ++ bs.take n }
      else none
    | _, _ => none
  | .writeFails reason =>
    match s.phase, s.todo with
    -- writing no words succeeds
    | .running _, .write (_ :: _) :: _ =>
      some { s with phase := .ended (.error (M.writeError reason)) }
    | _, _ => none
  | .send =>
    match s.phase, s.todo with
    | .running _, .send e :: rest => some { s with todo := rest, sent := s.sent ++ [e] }
    | _, _ => none
  | .sendFails =>
    match s.phase, s.todo with
    | .running _, .send _ :: _ => some { s with phase := .ended (.error M.sendError) }
    | _, _ => none

/-- What a step does. -/
inductive Stepped (M : Machine ω σ τ β ε χ) (s : Run σ τ β ε χ) :
    Act ω τ → Run σ τ β ε χ → Prop
  | opened {o : ω} {m : σ} {es : List (Effect β ε)} (hp : s.phase = .opening)
      (ho : M.opening o = .ok (m, es)) :
      Stepped M s (.opened o) { s with phase := .running m, todo := es }
  | refused {o : ω} {e : χ} (hp : s.phase = .opening) (ho : M.opening o = .error e) :
      Stepped M s (.opened o) { s with phase := .ended (.error e) }
  | stopped {m : σ} (hp : s.phase = .running m) (ht : s.todo = []) :
      Stepped M s .stop { s with phase := .ended (.ok ()) }
  | turned {m m' : σ} {t : τ} {es : List (Effect β ε)} (hp : s.phase = .running m)
      (ht : s.todo = []) (hm : M.turn m t = .ok (m', es)) : Stepped M s (.turn t)
      { s with phase := .running m', todo := es, turns := s.turns ++ [t] }
  | failed {m : σ} {t : τ} {e : χ} (hp : s.phase = .running m) (ht : s.todo = [])
      (hm : M.turn m t = .error e) :
      Stepped M s (.turn t) { s with phase := .ended (.error e) }
  | wrote {m : σ} {bs : List β} {rest : List (Effect β ε)} {n : ℕ} (hp : s.phase = .running m)
      (ht : s.todo = .write bs :: rest) (hn : n ≤ bs.length) : Stepped M s (.write n)
      { s with
        todo := if n = bs.length then rest else .write (bs.drop n) :: rest
        written := s.written ++ bs.take n }
  | writeFailed {m : σ} {b : β} {bs : List β} {rest : List (Effect β ε)} {reason : String}
      (hp : s.phase = .running m) (ht : s.todo = .write (b :: bs) :: rest) :
      Stepped M s (.writeFails reason) { s with phase := .ended (.error (M.writeError reason)) }
  | sent {m : σ} {e : ε} {rest : List (Effect β ε)} (hp : s.phase = .running m)
      (ht : s.todo = .send e :: rest) :
      Stepped M s .send { s with todo := rest, sent := s.sent ++ [e] }
  | sendFailed {m : σ} {e : ε} {rest : List (Effect β ε)} (hp : s.phase = .running m)
      (ht : s.todo = .send e :: rest) :
      Stepped M s .sendFails { s with phase := .ended (.error M.sendError) }

variable {M : Machine ω σ τ β ε χ} {s t : Run σ τ β ε χ} {a : Act ω τ}

/-- Every step is one of these. -/
theorem step_stepped (h : M.step s a = some t) : M.Stepped s a t := by
  cases a with
  | opened o =>
      simp only [step] at h
      split at h
      · rename_i hp
        split at h
        · rename_i m es ho
          obtain rfl := Option.some_inj.1 h
          exact .opened hp ho
        · rename_i e ho
          obtain rfl := Option.some_inj.1 h
          exact .refused hp ho
      · cases h
  | stop =>
      simp only [step] at h
      split at h
      · rename_i hp ht
        obtain rfl := Option.some_inj.1 h
        exact .stopped hp ht
      · cases h
  | turn u =>
      simp only [step] at h
      split at h
      · rename_i m hp ht
        split at h
        · rename_i m' es hm
          obtain rfl := Option.some_inj.1 h
          exact .turned hp ht hm
        · rename_i e hm
          obtain rfl := Option.some_inj.1 h
          exact .failed hp ht hm
      · cases h
  | write n =>
      simp only [step] at h
      split at h
      · rename_i hp ht
        obtain ⟨hn, rfl⟩ := Option.ite_some_none_eq_some.1 h
        exact .wrote hp ht hn
      · cases h
  | writeFails reason =>
      simp only [step] at h
      split at h
      · rename_i hp ht
        obtain rfl := Option.some_inj.1 h
        exact .writeFailed hp ht
      · cases h
  | send =>
      simp only [step] at h
      split at h
      · rename_i hp ht
        obtain rfl := Option.some_inj.1 h
        exact .sent hp ht
      · cases h
  | sendFails =>
      simp only [step] at h
      split at h
      · rename_i hp ht
        obtain rfl := Option.some_inj.1 h
        exact .sendFailed hp ht
      · cases h

/-! ### What has been asked for -/

/-- Opening the machine and the turns have left it with this memory, and have asked for this. -/
inductive Asked (M : Machine ω σ τ β ε χ) : List τ → σ → List (Effect β ε) → Prop
  | opened {o : ω} {m : σ} {es : List (Effect β ε)} (ho : M.opening o = .ok (m, es)) :
      Asked M [] m es
  | turned {us : List τ} {m m' : σ} {es fs : List (Effect β ε)} {u : τ} (h : Asked M us m es)
      (hm : M.turn m u = .ok (m', fs)) : Asked M (us ++ [u]) m' (es ++ fs)

/-- **What has been done and what is left to do is what has been asked for.**  Before the machine
has been opened nothing has. -/
inductive Accounts (M : Machine ω σ τ β ε χ) (s : Run σ τ β ε χ) : Prop
  | idle (hp : ∀ m, s.phase ≠ .running m) (hok : s.phase ≠ .ended (.ok ())) (ht : s.todo = [])
      (hu : s.turns = []) (hw : s.written = []) (hs : s.sent = [])
  | busy {m : σ} {es : List (Effect β ε)} (ha : M.Asked s.turns m es) (hp : s.phase ≠ .opening)
      (hm : ∀ m', s.phase = .running m' → m' = m) (hw : s.written ++ words s.todo = words es)
      (hs : s.sent ++ sends s.todo = sends es)

theorem accounts_init : M.Accounts Run.init :=
  .idle (fun _ h => nomatch h) nofun rfl rfl rfl rfl

/-- A machine that runs has been opened. -/
theorem Accounts.running {m : σ} (h : M.Accounts s) (hp : s.phase = .running m) :
    ∃ es, M.Asked s.turns m es ∧ s.written ++ words s.todo = words es ∧
      s.sent ++ sends s.todo = sends es := by
  cases h with
  | idle hidle => exact absurd hp (hidle m)
  | busy ha _ hm hw hs =>
      obtain rfl := hm m hp
      exact ⟨_, ha, hw, hs⟩

/-- Ending changes none of the histories. -/
theorem Accounts.ends {m : σ} {r : Except χ Unit} (h : M.Accounts s) (hp : s.phase = .running m) :
    M.Accounts { s with phase := .ended r } := by
  obtain ⟨es, ha, hw, hs⟩ := h.running hp
  exact .busy ha nofun (fun _ h => nomatch h) hw hs

theorem Accounts.step (hi : M.Accounts s) (h : M.step s a = some t) : M.Accounts t := by
  cases step_stepped h with
  | @opened o m es hp ho =>
      cases hi with
      | idle _ _ ht hu hw hs =>
          have ha : M.Asked s.turns m es := hu ▸ .opened ho
          refine .busy ha nofun (fun m' hm' => ?_) ?_ ?_
          · cases hm'
            rfl
          · simp [hw]
          · simp [hs]
      | busy _ hne => exact absurd hp hne
  | refused hp ho =>
      cases hi with
      | idle _ _ ht hu hw hs => exact .idle (fun _ h => nomatch h) nofun ht hu hw hs
      | busy _ hne => exact absurd hp hne
  | stopped hp ht => exact hi.ends hp
  | failed hp ht hm => exact hi.ends hp
  | writeFailed hp ht => exact hi.ends hp
  | sendFailed hp ht => exact hi.ends hp
  | @turned m m' u fs hp ht hm =>
      obtain ⟨es, ha, hw, hs⟩ := hi.running hp
      rw [ht, words_nil, List.append_nil] at hw
      rw [ht, sends_nil, List.append_nil] at hs
      refine .busy (ha.turned hm) nofun (fun m'' hm'' => ?_) ?_ ?_
      · cases hm''
        rfl
      · rw [words_append, hw]
      · rw [sends_append, hs]
  | @wrote m bs rest n hp ht hn =>
      obtain ⟨es, ha, hw, hs⟩ := hi.running hp
      rw [ht] at hw hs
      have hleft : words (if n = bs.length then rest else .write (bs.drop n) :: rest) =
          bs.drop n ++ words rest := by
        split
        · rename_i hall
          rw [hall, List.drop_length, List.nil_append]
        · rfl
      have hevents : sends (if n = bs.length then rest else .write (bs.drop n) :: rest) =
          sends rest := by
        split
        · rfl
        · rfl
      refine .busy ha (by simp [hp]) (fun m' hm' => ?_) ?_ ?_
      · cases hp.symm.trans hm'
        rfl
      · dsimp only
        rw [hleft, List.append_assoc, ← List.append_assoc (bs.take n), List.take_append_drop]
        exact hw
      · dsimp only
        rw [hevents]
        exact hs
  | @sent m e rest hp ht =>
      obtain ⟨es, ha, hw, hs⟩ := hi.running hp
      rw [ht] at hw hs
      refine .busy ha (by simp [hp]) (fun m' hm' => ?_) hw ?_
      · cases hp.symm.trans hm'
        rfl
      · rw [← hs]
        simp

/-- **The account of a run.** -/
theorem Accounts.of_reachable (h : Reachable M.step Run.init s) : M.Accounts s :=
  h.invariant accounts_init fun _ _ _ hi _ hs => hi.step hs

/-- What some turns have asked for, when it depends on the turns alone. -/
theorem Asked.sends_words (first : List ε) (shown : τ → List ε) (wire : τ → List β)
    (hopen : ∀ o m es, M.opening o = .ok (m, es) → sends es = first ∧ words es = [])
    (hturn : ∀ m u m' es, M.turn m u = .ok (m', es) → sends es = shown u ∧ words es = wire u)
    {us : List τ} {m : σ} {es : List (Effect β ε)} (h : M.Asked us m es) :
    sends es = first ++ us.flatMap shown ∧ words es = us.flatMap wire := by
  induction h with
  | opened ho =>
      obtain ⟨hs, hw⟩ := hopen _ _ _ ho
      exact ⟨hs.trans (List.append_nil _).symm, hw⟩
  | turned _ hm ih =>
      obtain ⟨hs, hw⟩ := hturn _ _ _ _ hm
      constructor
      · rw [sends_append, ih.1, hs, List.flatMap_append, List.flatMap_singleton, List.append_assoc]
      · rw [words_append, ih.2, hw, List.flatMap_append, List.flatMap_singleton]

/-! ### The reasons to end -/

/-- Why a machine ends, and with which result. -/
inductive Ends (M : Machine ω σ τ β ε χ) (s : Run σ τ β ε χ) : Act ω τ → Except χ Unit → Prop
  | refused {o : ω} {e : χ} (ho : M.opening o = .error e) : Ends M s (.opened o) (.error e)
  | stopped : Ends M s .stop (.ok ())
  | failed {m : σ} {u : τ} {e : χ} (hp : s.phase = .running m) (hm : M.turn m u = .error e) :
      Ends M s (.turn u) (.error e)
  | writeFailed {reason : String} : Ends M s (.writeFails reason) (.error (M.writeError reason))
  | sendFailed : Ends M s .sendFails (.error M.sendError)

/-- A step that ends a machine has a reason. -/
theorem step_ends {r : Except χ Unit} (h : M.step s a = some t) (hr : t.phase = .ended r) :
    M.Ends s a r := by
  cases step_stepped h with
  | opened hp ho => cases hr
  | turned hp ht hm => cases hr
  | wrote hp ht hn => cases hp.symm.trans hr
  | sent hp ht => cases hp.symm.trans hr
  | refused hp ho =>
      cases hr
      exact .refused ho
  | stopped hp ht =>
      cases hr
      exact .stopped
  | failed hp ht hm =>
      cases hr
      exact .failed hp hm
  | writeFailed hp ht =>
      cases hr
      exact .writeFailed
  | sendFailed hp ht =>
      cases hr
      exact .sendFailed

/-- Nothing happens to a machine that has ended. -/
theorem step_ended {r : Except χ Unit} (hp : s.phase = .ended r) : M.step s a = none := by
  cases hs : M.step s a with
  | none => rfl
  | some t =>
      cases step_stepped hs with
      | opened h | refused h | stopped h | turned h | failed h | wrote h | writeFailed h | sent h
      | sendFailed h => cases hp.symm.trans h

/-- **A machine that has ended has done so in its last step, for one of the reasons.** -/
theorem exists_ends {as : List (Act ω τ)} {r : Except χ Unit}
    (h : exec M.step Run.init as = some s) (hr : s.phase = .ended r) :
    ∃ before a u, as = before ++ [a] ∧ exec M.step Run.init before = some u ∧ M.Ends u a r := by
  induction as using List.reverseRecOn with
  | nil =>
      obtain rfl := Option.some_inj.1 h
      cases hr
  | append_singleton before a ih =>
      rw [exec_append] at h
      obtain ⟨u, hu, hus⟩ := Option.bind_eq_some_iff.1 h
      obtain ⟨v, hv, hvs⟩ := Option.bind_eq_some_iff.1 hus
      obtain rfl := Option.some_inj.1 hvs
      exact ⟨before, a, u, rfl, hu, step_ends hv hr⟩

end Machine

end Duplex
