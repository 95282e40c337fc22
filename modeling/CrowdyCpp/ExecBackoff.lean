import CrowdyCpp.ExecLine

/-!
# The backoff of the exec connection

After a lost connection every failed attempt is followed by a wait (`domains/exec.cpp`, lines
788-868).  An attempt that fails before there is a socket comes to `attemptFailedLocked`, which
doubles the backoff.  One whose socket fails before it opens comes to `loseLocked`, as a lost
connection does, and that leaves the backoff as it is.

A history of the attempts is kept beside the line.
-/

namespace CrowdyCpp.Exec

open Domains TransitionRuns

/-! ## 1. Attempts -/

namespace Line

/-- An attempt that fails and is to be made again: there was no endpoint, or no socket. -/
def dialFails (l : Line) : LineEvent → Bool
  | .endpoint (some _) _ _ _ => !l.exec.closed && l.exec.everOpened && l.exec.reconnect
  | _ => false

/-- An attempt whose socket fails before it is open, which is to be made again. -/
def socketFails (l : Line) : LineEvent → Bool
  | .lost gen _ _ _ _ =>
      decide (gen = l.exec.gen) && !l.exec.closed && !l.exec.isOpen && l.exec.everOpened &&
        l.exec.reconnect
  | _ => false

/-- The connection is open. -/
def opens (l : Line) : LineEvent → Bool
  | .opened gen _ => decide (gen = l.exec.gen) && !l.exec.closed
  | _ => false

end Line

/-- The clock when an attempt fails. -/
def LineEvent.failedAt : LineEvent → Nat
  | .endpoint _ _ now _ | .lost _ _ _ now _ => now
  | _ => 0

/-- The wait after the `nth` failed attempt since the connection was open; `backoffMs` is what it
    was drawn by. -/
structure Wait where
  nth : Nat
  backoffMs : Nat
  delayMs : Nat
deriving DecidableEq

/-- `failures` are the failed attempts since the connection was open, and `lagging` is whether
    one of them was made with a socket while the backoff could still grow. -/
structure Attempts where
  line : Line
  failures : Nat := 0
  lagging : Bool := false
  waits : List Wait := []

namespace Attempts

def start (reconnect : Bool) (callTimeoutMs initialReconnectDelayMs maxReconnectDelayMs : Nat) : Attempts where
  line := Line.initial reconnect callTimeoutMs initialReconnectDelayMs maxReconnectDelayMs

/-- What the step `e` to `l` is in the history. -/
def note (s : Attempts) (e : LineEvent) (l : Line) : Attempts :=
  if s.line.opens e then { s with line := l, failures := 0, lagging := false }
  else if s.line.dialFails e || s.line.socketFails e then
    { line := l
      failures := s.failures + 1
      lagging := s.lagging || s.line.socketFails e &&
        min (s.line.backoffMs * 2) s.line.maxReconnectDelayMs != s.line.backoffMs
      waits := s.waits ++ [⟨s.failures + 1, s.line.backoffMs, l.reconnectAt - e.failedAt⟩] }
  else { s with line := l }

def step (s : Attempts) (e : LineEvent) : Option Attempts := (s.line.step e).map (s.note e)

/-- The backoff after `n` doublings. -/
def doubled (initialMs maxMs n : Nat) : Nat := min maxMs (initialMs * 2 ^ n)

/-- Each wait is drawn from the half of its backoff up to all of it, and the backoff doubles from
    one failed attempt to the next. -/
def Doubling (initialMs maxMs : Nat) (s : Attempts) : Prop :=
  ∀ w ∈ s.waits, w.backoffMs = doubled initialMs maxMs (w.nth - 1) ∧
    w.backoffMs / 2 ≤ w.delayMs ∧ w.delayMs ≤ w.backoffMs

instance (initialMs maxMs : Nat) (s : Attempts) : Decidable (s.Doubling initialMs maxMs) :=
  inferInstanceAs (Decidable (∀ w ∈ s.waits, _))

/-- No attempt fails after one that was made with a socket while the backoff could still grow. -/
def Keeping (s : Attempts) (e : LineEvent) : Prop :=
  (s.line.dialFails e || s.line.socketFails e) = true → s.lagging = false

instance (s : Attempts) (e : LineEvent) : Decidable (s.Keeping e) :=
  inferInstanceAs (Decidable (_ → _))

/-! ## 2. What a step does to the backoff -/

section Step

variable {l l' : Line} {e : LineEvent}

/-- The delays stay, and the backoff follows the opens and the failed dials. -/
structure Backs (l : Line) (e : LineEvent) (l' : Line) : Prop where
  initial : l'.initialReconnectDelayMs = l.initialReconnectDelayMs
  max : l'.maxReconnectDelayMs = l.maxReconnectDelayMs
  opens : l.opens e = true → l'.backoffMs = l.initialReconnectDelayMs
  dialFails : l.dialFails e = true → l'.backoffMs = min (l.backoffMs * 2) l.maxReconnectDelayMs
  stays : l.opens e = false → l.dialFails e = false → l'.backoffMs = l.backoffMs
  waits : (l.dialFails e || l.socketFails e) = true →
    ∃ draw, l'.reconnectAt = e.failedAt + jittered l.backoffMs draw

/-- The delays and the backoff are as they were. -/
def SameDelays (l l' : Line) : Prop :=
  l'.initialReconnectDelayMs = l.initialReconnectDelayMs ∧
    l'.maxReconnectDelayMs = l.maxReconnectDelayMs ∧ l'.backoffMs = l.backoffMs

theorem connect_delays (done : Option Nat) : SameDelays l (l.connect done) := by
  unfold Line.connect
  split
  · exact ⟨rfl, rfl, rfl⟩
  · split <;> exact ⟨rfl, rfl, rfl⟩

theorem loseLocked_delays (reply : ExecReply) (immediately : Bool) (now draw : Nat) :
    SameDelays l (l.loseLocked reply immediately now draw) := by
  unfold Line.loseLocked
  dsimp only
  split
  · exact ⟨rfl, rfl, rfl⟩
  · split <;> exact ⟨rfl, rfl, rfl⟩

theorem onReply_delays (gen rid : Nat) (reply : ExecReply) (now : Nat) :
    SameDelays l (l.onReply gen rid reply now) := by
  unfold Line.onReply
  split
  · exact ⟨rfl, rfl, rfl⟩
  split
  · exact ⟨rfl, rfl, rfl⟩
  · rename_i p hp
    have hwaits : SameDelays l { l with exec := l.exec.requeue rid p } := ⟨rfl, rfl, rfl⟩
    generalize ({ l with exec := l.exec.requeue rid p } : Line) = waits at hwaits ⊢
    dsimp only
    split
    · split
      · obtain ⟨hinitial, hmax, hbackoff⟩ := loseLocked_delays (l := waits)
          ⟨.Unavailable, "the connection moved to another host".toList⟩ true now 0
        exact ⟨hinitial.trans hwaits.1, hmax.trans hwaits.2.1, hbackoff.trans hwaits.2.2⟩
      · split
        · exact ⟨hwaits.1, hwaits.2.1, hwaits.2.2⟩
        · exact hwaits
    · exact ⟨rfl, rfl, rfl⟩

theorem close_delays : SameDelays l l.close := by
  unfold Line.close
  split <;> exact ⟨rfl, rfl, rfl⟩

theorem onAccessEndedClose_delays (gen : Nat) (reason : List Char) :
    SameDelays l (l.onAccessEndedClose gen reason) := by
  unfold Line.onAccessEndedClose
  split <;> exact ⟨rfl, rfl, rfl⟩

theorem timerTick_delays (now : Nat) : SameDelays l (l.timerTick now) := by
  unfold Line.timerTick
  split <;> exact ⟨rfl, rfl, rfl⟩

theorem SameDelays.backs (h : SameDelays l l') (hopens : l.opens e = false) (hdial : l.dialFails e = false)
    (hsocket : l.socketFails e = false) : Backs l e l' where
  initial := h.1
  max := h.2.1
  opens htrue := absurd htrue (by simp [hopens])
  dialFails htrue := absurd htrue (by simp [hdial])
  stays _ _ := h.2.2
  waits htrue := absurd htrue (by simp [hdial, hsocket])

theorem onEndpoint_backs (answer : Option Errc) (why : List Char) (now draw : Nat) :
    Backs l (.endpoint answer why now draw) (l.onEndpoint answer why now draw) := by
  by_cases hclosed : l.exec.closed = true
  · have hsame : SameDelays l (l.onEndpoint answer why now draw) := by
      unfold Line.onEndpoint
      rw [if_pos hclosed]
      exact ⟨rfl, rfl, rfl⟩
    exact hsame.backs rfl (by cases answer <;> simp [Line.dialFails, hclosed]) rfl
  · cases answer with
    | none =>
        have hsame : SameDelays l (l.onEndpoint none why now draw) := by
          unfold Line.onEndpoint
          rw [if_neg hclosed]
          exact ⟨rfl, rfl, rfl⟩
        exact hsame.backs rfl rfl rfl
    | some code =>
        by_cases hagain : (l.exec.everOpened && l.exec.reconnect) = true
        · have hmade : l.onEndpoint (some code) why now draw =
              { l with
                exec := l.exec.onEndpoint false why
                reconnectAt := now + jittered l.backoffMs draw
                backoffMs := min (l.backoffMs * 2) l.maxReconnectDelayMs } := by
            unfold Line.onEndpoint
            rw [if_neg hclosed]
            exact if_pos hagain
          rw [hmade]
          refine ⟨rfl, rfl, nofun, fun _ => rfl, fun _ hdial => ?_, fun _ => ⟨draw, rfl⟩⟩
          simp only [Line.dialFails, Bool.and_assoc, hagain, Bool.and_true, Bool.not_eq_false'] at hdial
          exact absurd hdial hclosed
        · have hsame : SameDelays l (l.onEndpoint (some code) why now draw) := by
            unfold Line.onEndpoint
            rw [if_neg hclosed]
            dsimp only
            rw [if_neg hagain]
            exact ⟨rfl, rfl, rfl⟩
          refine hsame.backs rfl ?_ rfl
          simp only [Line.dialFails, Bool.and_assoc, Bool.eq_false_iff.mpr hagain, Bool.and_false]

theorem onLost_backs (gen : Nat) (denied : Bool) (why : List Char) (now draw : Nat) :
    Backs l (.lost gen denied why now draw) (l.onLost gen denied why now draw) := by
  have hsame : SameDelays l (l.onLost gen denied why now draw) := by
    unfold Line.onLost
    split
    · exact ⟨rfl, rfl, rfl⟩
    · exact loseLocked_delays _ _ _ _
  refine ⟨hsame.1, hsame.2.1, nofun, nofun, fun _ _ => hsame.2.2, fun hfails => ⟨draw, ?_⟩⟩
  simp only [Line.dialFails, Bool.false_or, Line.socketFails, Bool.and_eq_true, decide_eq_true_eq,
    Bool.not_eq_true'] at hfails
  obtain ⟨⟨⟨⟨hgen, hclosed⟩, hopen⟩, hever⟩, hreconnect⟩ := hfails
  unfold Line.onLost Line.loseLocked
  simp [hgen, hclosed, hever, hreconnect, LineEvent.failedAt]

theorem onOpen_backs (gen now : Nat) : Backs l (.opened gen now) (l.onOpen gen now) := by
  unfold Line.onOpen
  by_cases hstale : gen ≠ l.exec.gen ∨ l.exec.closed = true
  · rw [if_pos hstale]
    refine SameDelays.backs ⟨rfl, rfl, rfl⟩ ?_ rfl rfl
    simp only [Line.opens, Bool.and_eq_false_iff, decide_eq_false_iff_not, Bool.not_eq_false']
    exact hstale
  · rw [if_neg hstale]
    refine ⟨rfl, rfl, fun _ => rfl, nofun, fun hopens => ?_, nofun⟩
    simp only [Line.opens, Bool.and_eq_false_iff, decide_eq_false_iff_not, Bool.not_eq_false'] at hopens
    exact absurd hopens hstale

theorem step_backs (hstep : l.step e = some l') : Backs l e l' := by
  cases e with
  | connect done =>
      obtain rfl := Option.some.inj hstep
      exact (connect_delays done).backs rfl rfl rfl
  | request frame done timeoutMs now =>
      obtain rfl := Option.some.inj hstep
      exact SameDelays.backs ⟨rfl, rfl, rfl⟩ rfl rfl rfl
  | tellGateway frame now =>
      obtain rfl := Option.some.inj hstep
      exact SameDelays.backs ⟨rfl, rfl, rfl⟩ rfl rfl rfl
  | register t =>
      obtain rfl := Option.some.inj hstep
      exact SameDelays.backs ⟨rfl, rfl, rfl⟩ rfl rfl rfl
  | unregister handle =>
      obtain rfl := Option.some.inj hstep
      exact SameDelays.backs ⟨rfl, rfl, rfl⟩ rfl rfl rfl
  | endpoint answer why now draw =>
      simp only [Line.step] at hstep
      split at hstep
      · obtain rfl := Option.some.inj hstep
        exact onEndpoint_backs answer why now draw
      · cases hstep
  | opened gen now =>
      simp only [Line.step] at hstep
      split at hstep
      · obtain rfl := Option.some.inj hstep
        exact onOpen_backs gen now
      · cases hstep
  | reply gen rid reply now =>
      simp only [Line.step] at hstep
      split at hstep
      · obtain rfl := Option.some.inj hstep
        exact (onReply_delays gen rid reply now).backs rfl rfl rfl
      · cases hstep
  | push t =>
      obtain rfl := Option.some.inj hstep
      exact SameDelays.backs ⟨rfl, rfl, rfl⟩ rfl rfl rfl
  | lost gen denied why now draw =>
      simp only [Line.step] at hstep
      split at hstep
      · obtain rfl := Option.some.inj hstep
        exact onLost_backs gen denied why now draw
      · cases hstep
  | accessEnded gen reason =>
      simp only [Line.step] at hstep
      split at hstep
      · obtain rfl := Option.some.inj hstep
        exact (onAccessEndedClose_delays gen reason).backs rfl rfl rfl
      · cases hstep
  | tick now =>
      obtain rfl := Option.some.inj hstep
      exact (timerTick_delays now).backs rfl rfl rfl
  | close =>
      obtain rfl := Option.some.inj hstep
      exact close_delays.backs rfl rfl rfl
  | flush =>
      obtain rfl := Option.some.inj hstep
      exact SameDelays.backs ⟨rfl, rfl, rfl⟩ rfl rfl rfl

end Step

/-! ## 3. The history -/

/-- While the waits are as they should be, the backoff has been doubled once for each failed
    attempt, unless the history is lagging. -/
structure Follows (initialMs maxMs : Nat) (s : Attempts) : Prop where
  initial : s.line.initialReconnectDelayMs = initialMs
  max : s.line.maxReconnectDelayMs = maxMs
  backoff : s.Doubling initialMs maxMs →
    (s.line.backoffMs = doubled initialMs maxMs s.failures ↔ s.lagging = false)

section History

variable {initialMs maxMs : Nat} {s t : Attempts} {e : LineEvent}

theorem doubled_zero (hle : initialMs ≤ maxMs) : doubled initialMs maxMs 0 = initialMs := by
  unfold doubled
  omega

theorem doubled_succ (n : Nat) :
    doubled initialMs maxMs (n + 1) = min (doubled initialMs maxMs n * 2) maxMs := by
  unfold doubled
  rw [Nat.pow_succ, ← Nat.mul_assoc]
  omega

theorem jittered_bounds (ms draw : Nat) : ms / 2 ≤ jittered ms draw ∧ jittered ms draw ≤ ms := by
  unfold jittered
  omega

/-- A failed attempt adds a wait, which is right if and only if the backoff is. -/
theorem doubling_append {now draw : Nat} {l : Line} (hs : s.Doubling initialMs maxMs)
    (hwait : l.reconnectAt = now + jittered s.line.backoffMs draw) :
    (∀ w ∈ s.waits ++ [⟨s.failures + 1, s.line.backoffMs, l.reconnectAt - now⟩],
        w.backoffMs = doubled initialMs maxMs (w.nth - 1) ∧
          w.backoffMs / 2 ≤ w.delayMs ∧ w.delayMs ≤ w.backoffMs) ↔
      s.line.backoffMs = doubled initialMs maxMs s.failures := by
  have hdelay : l.reconnectAt - now = jittered s.line.backoffMs draw := by omega
  rw [hdelay]
  constructor
  · intro hall
    exact (hall _ (List.mem_append_right _ (List.mem_singleton_self _))).1
  · intro hbackoff w hw
    rcases List.mem_append.mp hw with hw | hw
    · exact hs w hw
    · rw [List.mem_singleton.mp hw]
      exact ⟨hbackoff, jittered_bounds _ _⟩

/-- **One step**: the waits stay right if and only if no attempt fails that is lagging. -/
theorem step_doubling_iff (hle : initialMs ≤ maxMs) (hstep : s.step e = some t)
    (h : s.Follows initialMs maxMs) (hs : s.Doubling initialMs maxMs) :
    t.Follows initialMs maxMs ∧ (t.Doubling initialMs maxMs ↔ s.Keeping e) := by
  obtain ⟨l, hl, rfl⟩ := Option.map_eq_some_iff.mp hstep
  have hbacks := step_backs hl
  have hbackoff := h.backoff hs
  unfold note
  by_cases hopens : s.line.opens e = true
  · rw [if_pos hopens]
    refine ⟨⟨hbacks.initial.trans h.initial, hbacks.max.trans h.max, fun _ => ?_⟩, ?_⟩
    · refine iff_of_true ?_ rfl
      exact (hbacks.opens hopens).trans (h.initial.trans (doubled_zero hle).symm)
    · refine iff_of_true hs fun hfails => ?_
      cases e <;> simp_all [Line.opens, Line.dialFails, Line.socketFails]
  · rw [if_neg hopens]
    have hopens := Bool.eq_false_iff.mpr hopens
    by_cases hfails : (s.line.dialFails e || s.line.socketFails e) = true
    · rw [if_pos hfails]
      obtain ⟨draw, hwait⟩ := hbacks.waits hfails
      have hright := (doubling_append hs hwait).trans hbackoff
      refine ⟨⟨hbacks.initial.trans h.initial, hbacks.max.trans h.max, fun ht => ?_⟩, ?_⟩
      · have hlagging := hright.mp ht
        have hdoubled := hbackoff.mpr hlagging
        have hnext : doubled initialMs maxMs (s.failures + 1) =
            min (s.line.backoffMs * 2) s.line.maxReconnectDelayMs := by
          rw [doubled_succ, hdoubled, h.max]
        dsimp only
        rw [hlagging, hnext, Bool.false_or]
        cases hdial : s.line.dialFails e with
        | true =>
            have hsocket : s.line.socketFails e = false := by
              cases e <;> simp_all [Line.dialFails, Line.socketFails]
            rw [hbacks.dialFails hdial, hsocket, Bool.false_and]
            exact iff_of_true rfl rfl
        | false =>
            rw [hdial, Bool.false_or] at hfails
            rw [hbacks.stays hopens hdial, hfails, Bool.true_and, bne_eq_false_iff_eq]
            exact eq_comm
      · exact hright.trans ⟨fun hlagging _ => hlagging, fun hkeeping => hkeeping hfails⟩
    · rw [if_neg hfails]
      obtain ⟨hdial, -⟩ := Bool.or_eq_false_iff.mp (Bool.eq_false_iff.mpr hfails)
      refine ⟨⟨hbacks.initial.trans h.initial, hbacks.max.trans h.max, fun _ => ?_⟩, ?_⟩
      · dsimp only
        rw [hbacks.stays hopens hdial]
        exact hbackoff
      · exact iff_of_true hs fun h => absurd h hfails

end History

/-- **When the backoff doubles**: throughout every run if and only if no failed attempt comes,
    before the connection is open again, after one that was made with a socket while the backoff
    could still grow. -/
theorem backoff_doubles_iff (reconnect : Bool) (callTimeoutMs initialMs maxMs : Nat) (hle : initialMs ≤ maxMs)
    {events : List LineEvent} {t : Attempts}
    (hrun : Run step Always (start reconnect callTimeoutMs initialMs maxMs) events t) :
    Throughout step (Doubling initialMs maxMs) (start reconnect callTimeoutMs initialMs maxMs) events ↔
      Run step Keeping (start reconnect callTimeoutMs initialMs maxMs) events t := by
  have hexact : ∀ s e t, step s e = some t → s.Follows initialMs maxMs → s.Doubling initialMs maxMs →
      t.Follows initialMs maxMs ∧ (t.Doubling initialMs maxMs ↔ s.Keeping e) :=
    fun s e t hstep h hs => step_doubling_iff hle hstep h hs
  apply hrun.throughout_iff hexact
  · exact ⟨rfl, rfl, fun _ => iff_of_true (doubled_zero hle).symm rfl⟩
  · exact fun _ hw => absurd hw List.not_mem_nil

section Sample

/-- The connection opens and is lost; then two dials and a socket fail. -/
def mixedRun : List LineEvent :=
  [.connect none, .endpoint none [] 0 0, .opened 1 0, .lost 1 false [] 0 0, .tick 300,
    .endpoint (some .notConnected) [] 300 10, .tick 1000, .endpoint (some .notConnected) [] 1000 10,
    .tick 2000, .endpoint none [] 2000 0, .lost 3 false [] 2000 10]

theorem backoff_doubles_mixed :
    Throughout step (Doubling 250 5000) (start true 10000 250 5000) mixedRun := by
  have hrun : Run step Always (start true 10000 250 5000) mixedRun _ := Run.of_isSome (by decide +kernel)
  exact (backoff_doubles_iff true 10000 250 5000 (by decide) hrun).mpr (Run.of_isSome (by decide +kernel))

/-- The connection opens and is lost; then two sockets fail before they open. -/
theorem backoff_stays_with_socket :
    ∃ t, Run step Always (start true 10000 250 5000)
        [.connect none, .endpoint none [] 0 0, .opened 1 0, .lost 1 false [] 0 0, .tick 300,
          .endpoint none [] 300 0, .lost 3 false [] 300 10, .tick 600, .endpoint none [] 600 0,
          .lost 5 false [] 600 10] t ∧
      t.waits = [⟨1, 250, 135⟩, ⟨2, 250, 135⟩] ∧ ¬ t.Doubling 250 5000 :=
  ⟨_, Run.of_isSome (by decide +kernel), by decide +kernel, by decide +kernel⟩

end Sample

end Attempts

end CrowdyCpp.Exec
