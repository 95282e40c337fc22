import CrowdyCpp.ExecLine
import CrowdyCpp.KitResends

/-!
# Every request is answered once

Seven handlers of `ExecConnection::Impl` (`domains/exec.cpp`, lines 347-398, 530-560 and
702-932) move a request between waiting, in flight and answered.  `Watched` is the line
with a record of what happens to requests: which were made, which frames were encoded for
sending, and what came in between.

The record of one request id runs through four phases, from not sent to sent twice, and a
frame encoded in any other phase is not provided for.  An entry of the table says where in
this order its request is (`Fits`); each function is described once, by what it does to the
entries and to the callbacks (`Handles`).
-/

namespace CrowdyCpp.Exec

open Domains Std MapSweep TransitionRuns

/-! ## 1. The record -/

inductive Happening where
  /-- The frame of a request is encoded and put in line. -/
  | encoded (rid : Nat)
  /-- A Moved reply arrives. -/
  | moved (rid : Nat)
  /-- The connection is lost, or left. -/
  | lost
deriving DecidableEq

/-- `requests` is everything that took a request id, the renewals of `onOpen` too; the
    callbacks handed to `request` are numbered from 0; `delivered` pairs the id a reply of
    the gateway's carried with the callback it went to. -/
structure Watched where
  line : Line
  requests : List Pending := []
  asked : Nat := 0
  log : List Happening := []
  delivered : List (Nat × Done) := []

def renewals : List Sub → Nat → List Pending
  | [], _ => []
  | sub :: subs, rid => renewal rid sub :: renewals subs (nextRid rid)

theorem renewals_length (subs : List Sub) (rid : Nat) :
    (renewals subs rid).length = subs.length := by
  induction subs generalizing rid with
  | nil => rfl
  | cons sub subs ih => rw [renewals, List.length_cons, List.length_cons, ih]

/-- The requests an event adds. -/
def Line.adds (l : Line) : LineEvent → List Pending
  | .request frame done timeoutMs _ =>
      if l.exec.closed then [] else [l.exec.newRequest frame done false timeoutMs]
  | .tellGateway frame _ => if l.exec.closed then [] else [l.exec.newRequest frame none true 0]
  | .opened gen _ =>
      if gen = l.exec.gen ∧ l.exec.closed = false ∧ l.exec.everOpened = true then
        renewals (l.exec.subs.toList.map Prod.snd) l.exec.rid
      else []
  | _ => []

def LineEvent.callbacks : LineEvent → Nat
  | .request _ (some _) _ _ => 1
  | _ => 0

/-- What is recorded of an event that leads from `l` to `l'`, but for the frames. -/
def Line.hears (l l' : Line) : LineEvent → List Happening
  | .reply _ rid reply _ =>
      (if reply.status = .Moved ∧ l.exec.closed = false then [.moved rid] else []) ++
        if l'.exec.gen = l.exec.gen then [] else [.lost]
  | .lost _ _ _ _ _ => if l'.exec.gen = l.exec.gen then [] else [.lost]
  | _ => []

def repliedWith (reply : ExecReply) : Callback → Option Done
  | .reply d r => if r = reply then some d else none
  | .push _ => none

/-- The callbacks the gateway's reply goes to. -/
def Line.delivers (l l' : Line) : LineEvent → List (Nat × Done)
  | .reply _ rid reply _ =>
      ((l'.exec.queue.drop l.exec.queue.length).filterMap (repliedWith reply)).map fun d => (rid, d)
  | _ => []

/-- The callback of a request is a new one. -/
def Watched.admitted (w : Watched) : LineEvent → Bool
  | .request _ done _ _ => done == none || done == some (.call w.asked)
  | _ => true

def Watched.step (w : Watched) (e : LineEvent) : Option Watched :=
  if w.admitted e then
    (w.line.step e).map fun l =>
      { line := l
        requests := w.requests ++ w.line.adds e
        asked := w.asked + e.callbacks
        log := w.log ++ w.line.hears l e ++
          (l.exec.toSend.drop w.line.exec.toSend.length).map fun f => .encoded f.rid
        delivered := w.delivered ++ w.line.delivers l e }
  else none

def Watched.initial (reconnect : Bool) (callTimeoutMs initialDelayMs maxDelayMs : Nat) : Watched :=
  { line := Line.initial reconnect callTimeoutMs initialDelayMs maxDelayMs }

/-- How often callback `n` is queued, in `queue` or in `outbox`. -/
def Impl.answers (n : Nat) (i : Impl) : Nat := (i.queue ++ i.outbox).countP (Kit.repliesTo n)

def Impl.Holds (n : Nat) (i : Impl) : Prop :=
  ∃ (rid : Nat) (p : Pending), i.pending[rid]? = some p ∧ p.done = some (.call n)

/-- A callback is queued once, or its request is still in the table; a frame is encoded
    twice at most, the second time for a call, with `reconnect` on, after a Moved reply to
    it or a loss; and a reply goes to the request whose id it carries. -/
structure Watched.Answered (w : Watched) : Prop where
  distinct : (w.requests.map fun r => r.frame.rid).Nodup
  once : ∀ n < w.asked, (w.line.exec.answers n = 1 ∧ ¬ w.line.exec.Holds n) ∨
    (w.line.exec.answers n = 0 ∧ w.line.exec.Holds n)
  twice : ∀ r ∈ w.requests, w.log.count (.encoded r.frame.rid) ≤ 2
  again : ∀ r ∈ w.requests, ∀ before between after : List Happening,
    w.log = before ++ .encoded r.frame.rid :: between ++ .encoded r.frame.rid :: after →
      (.moved r.frame.rid ∈ between ∨ .lost ∈ between) ∧
        r.frame.kind = .Call ∧ w.line.exec.reconnect = true
  carried : ∀ (rid : Nat) (d : Done), (rid, d) ∈ w.delivered → ∀ r ∈ w.requests,
    r.done = some d → r.frame.rid = rid

/-! ## 2. Phases -/

inductive Phase where
  | unsent | out | between | twice
deriving DecidableEq

/-- `none` when a frame is encoded out of order. -/
def Phase.next (rid : Nat) : Option Phase → Happening → Option Phase
  | none, _ => none
  | some ph, .encoded r =>
      if r = rid then
        match ph with
        | .unsent => some .out
        | .between => some .twice
        | _ => none
      else some ph
  | some ph, .moved r => if r = rid ∧ ph = .out then some .between else some ph
  | some ph, .lost => if ph = .out then some .between else some ph

def phase (rid : Nat) (log : List Happening) : Option Phase := log.foldl (Phase.next rid) (some .unsent)

def Phase.sends : Phase → Nat
  | .unsent => 0
  | .out | .between => 1
  | .twice => 2

theorem phase_append (rid : Nat) (log evs : List Happening) :
    phase rid (log ++ evs) = evs.foldl (Phase.next rid) (phase rid log) := by
  rw [phase, List.foldl_append]
  rfl

theorem phase_concat (rid : Nat) (log : List Happening) (e : Happening) :
    phase rid (log ++ [e]) = Phase.next rid (phase rid log) e := by
  rw [phase_append]
  rfl

theorem foldl_next_none (rid : Nat) (evs : List Happening) :
    evs.foldl (Phase.next rid) none = none := by
  induction evs with
  | nil => rfl
  | cons e evs ih => exact ih

theorem count_of_phase {rid : Nat} {log : List Happening} {ph : Phase}
    (hph : phase rid log = some ph) : log.count (.encoded rid) = ph.sends := by
  induction log using List.reverseRecOn generalizing ph with
  | nil =>
      obtain rfl := Option.some.inj hph
      rfl
  | append_singleton log e ih =>
      rw [phase_concat] at hph
      cases hbefore : phase rid log with
      | none =>
          rw [hbefore] at hph
          simp [Phase.next] at hph
      | some old =>
          rw [hbefore] at hph
          rw [List.count_append, ih hbefore]
          cases e with
          | encoded r =>
              by_cases hr : r = rid
              · subst hr
                cases old <;> simp [Phase.next] at hph <;> subst hph <;> simp [Phase.sends]
              · simp only [Phase.next, if_neg hr, Option.some.injEq] at hph
                subst hph
                simp [hr]
          | moved r =>
              simp only [Phase.next] at hph
              split at hph
              · rename_i hout
                obtain rfl := Option.some.inj hph
                simp [hout.2, Phase.sends]
              · obtain rfl := Option.some.inj hph
                simp
          | lost =>
              simp only [Phase.next] at hph
              split at hph
              · rename_i hout
                obtain rfl := Option.some.inj hph
                simp [hout, Phase.sends]
              · obtain rfl := Option.some.inj hph
                simp

/-- Between two sends of one request there is a Moved reply or a loss. -/
theorem between_sends {rid : Nat} {before between after : List Happening}
    (hph : phase rid (before ++ .encoded rid :: between ++ .encoded rid :: after) ≠ none) :
    .moved rid ∈ between ∨ .lost ∈ between := by
  by_contra hneither
  rw [not_or] at hneither
  apply hph
  -- without either, the request stays out, or sent twice, and the second send is too much
  have hstays : ∀ (evs : List Happening) (ph : Option Phase),
      (∀ e ∈ evs, e ≠ .moved rid ∧ e ≠ .lost) → ph = none ∨ ph = some .out ∨ ph = some .twice →
      Phase.next rid (evs.foldl (Phase.next rid) ph) (.encoded rid) = none := by
    intro evs
    induction evs with
    | nil =>
        rintro ph - (rfl | rfl | rfl) <;> simp [Phase.next]
    | cons e evs ih =>
        intro ph hevs hfrom
        rw [List.foldl_cons]
        apply ih _ fun e' he' => hevs e' (List.mem_cons_of_mem _ he')
        have he := hevs e List.mem_cons_self
        rcases hfrom with rfl | rfl | rfl
        · exact Or.inl rfl
        · cases e with
          | encoded r => by_cases hr : r = rid <;> simp [Phase.next, hr]
          | moved r =>
              have hr : r ≠ rid := by
                rintro rfl
                exact he.1 rfl
              simp [Phase.next, hr]
          | lost => exact absurd rfl he.2
        · cases e with
          | encoded r => by_cases hr : r = rid <;> simp [Phase.next, hr]
          | moved r => simp [Phase.next]
          | lost => exact absurd rfl he.2
  have hevs : ∀ e ∈ between, e ≠ .moved rid ∧ e ≠ .lost := by
    intro e he
    constructor
    · rintro rfl
      exact hneither.1 he
    · rintro rfl
      exact hneither.2 he
  have hfirst : Phase.next rid (phase rid before) (.encoded rid) = none ∨
      Phase.next rid (phase rid before) (.encoded rid) = some .out ∨
      Phase.next rid (phase rid before) (.encoded rid) = some .twice := by
    cases phase rid before with
    | none => exact Or.inl rfl
    | some ph => cases ph <;> simp [Phase.next]
  rw [phase_append, phase_append, List.foldl_cons, List.foldl_cons, hstays between _ hevs hfirst]
  exact foldl_next_none rid after

/-! ## 3. The books -/

/-- Where in its order an entry of the table has its request. -/
def Fits (p : Pending) (ph : Phase) : Prop :=
  if p.gen = 0 then ph = .unsent ∨ (p.retried = true ∧ ph = .between)
  else ph = .out ∨ (p.retried = true ∧ ph = .twice)

def Phased (i : Impl) (log : List Happening) : Prop :=
  ∀ rid : Nat, ∃ ph, phase rid log = some ph ∧ ∀ p : Pending, i.pending[rid]? = some p → Fits p ph

/-- The requests made, their callbacks and the record agree with the table. -/
structure Accounted (i : Impl) (requests : List Pending) (asked : Nat) (log : List Happening) :
    Prop where
  counter : i.rid = requests.length + 1
  numbered : ∀ (k : Nat) (r : Pending), requests[k]? = some r → r.frame.rid = k + 1
  owners : ∀ r ∈ requests, r.done = none ∨ ∃ n < asked, r.done = some (.call n)
  single : ∀ r ∈ requests, ∀ r' ∈ requests, r.done = r'.done → r.done ≠ none →
    r.frame.rid = r'.frame.rid
  booked : ∀ (rid : Nat) (p : Pending), i.pending[rid]? = some p →
    p.frame.rid = rid ∧ ∃ r ∈ requests, r.frame = p.frame ∧ r.done = p.done
  silent : ∀ (rid : Nat) (p : Pending), i.pending[rid]? = some p → p.internal = true →
    p.done = none
  again : ∀ (rid : Nat) (p : Pending), i.pending[rid]? = some p → p.retried = true →
    p.frame.kind = .Call ∧ i.reconnect = true
  once : ∀ n < asked, (i.answers n = 1 ∧ ¬ i.Holds n) ∨ (i.answers n = 0 ∧ i.Holds n)
  later : ∀ n, asked ≤ n → i.answers n = 0
  phased : Phased i log
  unsent : ∀ rid, requests.length < rid → phase rid log = some .unsent
  twice : ∀ r ∈ requests, phase r.frame.rid log = some .twice →
    r.frame.kind = .Call ∧ i.reconnect = true

section Accounted

variable {i i' : Impl} {requests : List Pending} {asked : Nat} {log evs : List Happening}

theorem Accounted.rid_le (h : Accounted i requests asked log) {r : Pending} (hr : r ∈ requests) :
    r.frame.rid ≤ requests.length := by
  obtain ⟨k, hk⟩ := List.mem_iff_getElem?.mp hr
  rw [h.numbered k r hk]
  exact (List.getElem?_eq_some_iff.mp hk).1

theorem Accounted.entry_le (h : Accounted i requests asked log) {rid : Nat} {p : Pending}
    (hp : i.pending[rid]? = some p) : rid ≤ requests.length := by
  obtain ⟨hrid, r, hr, hframe, -⟩ := h.booked rid p hp
  rw [← hrid, ← hframe]
  exact h.rid_le hr

theorem Accounted.free (h : Accounted i requests asked log) : i.pending[i.rid]? = none := by
  cases hp : i.pending[i.rid]? with
  | none => rfl
  | some q =>
      have hle := h.entry_le hp
      rw [h.counter] at hle
      omega

/-- A callback belongs to one request. -/
theorem Accounted.sole (h : Accounted i requests asked log) {rid rid' n : Nat} {p p' : Pending}
    (hp : i.pending[rid]? = some p) (hp' : i.pending[rid']? = some p')
    (hdone : p.done = some (.call n)) (hdone' : p'.done = some (.call n)) : rid' = rid := by
  obtain ⟨hrid, r, hr, hframe, hsame⟩ := h.booked rid p hp
  obtain ⟨hrid', r', hr', hframe', hsame'⟩ := h.booked rid' p' hp'
  have heq := h.single r' hr' r hr
  rw [hsame, hsame', hdone, hdone', hframe, hframe', hrid, hrid'] at heq
  exact heq rfl (by simp)

theorem Accounted.done_of_entry (h : Accounted i requests asked log) {rid n : Nat} {p : Pending}
    (hp : i.pending[rid]? = some p) (hdone : p.done = some (.call n)) : n < asked := by
  obtain ⟨-, r, hr, -, hsame⟩ := h.booked rid p hp
  rcases h.owners r hr with hnone | ⟨m, hm, hcall⟩
  · rw [hsame, hdone] at hnone
    simp at hnone
  · rw [hsame, hdone] at hcall
    simp only [Option.some.injEq, Done.call.injEq] at hcall
    exact hcall ▸ hm

end Accounted

/-- What a function does to the requests in the table: each is kept, for the same frame and
    the same callback, or gone with its callback queued; `evs` is recorded meanwhile. -/
structure Handles (i i' : Impl) (evs : List Happening) : Prop where
  rid : i'.rid = i.rid
  reconnect : i'.reconnect = i.reconnect
  kept : ∀ (rid : Nat) (p' : Pending), i'.pending[rid]? = some p' →
    ∃ p : Pending, i.pending[rid]? = some p ∧ p'.frame = p.frame ∧ p'.done = p.done ∧
      p'.internal = p.internal ∧
      (p'.retried = true → p.retried = true ∨ (p.frame.kind = .Call ∧ i.reconnect = true))
  others : ∀ n, ¬ i.Holds n → i'.answers n = i.answers n
  answered : ∀ (n rid : Nat) (p : Pending), i.pending[rid]? = some p → p.done = some (.call n) →
    (∀ (r : Nat) (q : Pending), i.pending[r]? = some q → q.done = some (.call n) → r = rid) →
      ((∃ p', i'.pending[rid]? = some p') ∧ i'.answers n = i.answers n) ∨
      (i'.pending[rid]? = none ∧ i'.answers n = i.answers n + 1)
  sent : ∀ rid : Nat, .encoded rid ∈ evs → ∃ p', i'.pending[rid]? = some p'
  phased : ∀ log, Phased i log → Phased i' (log ++ evs)

/-- Without a send, a request is not sent for a first or a second time. -/
theorem phase_unsent_of_quiet {rid : Nat} {log evs : List Happening} (hevs : .encoded rid ∉ evs) :
    (phase rid log = some .unsent → phase rid (log ++ evs) = some .unsent) ∧
      (phase rid (log ++ evs) = some .twice → phase rid log = some .twice) := by
  induction evs using List.reverseRecOn with
  | nil => simp
  | append_singleton evs e ih =>
      have hbefore := ih fun h => hevs (List.mem_append_left _ h)
      have hlast : e ≠ .encoded rid := by
        rintro rfl
        exact hevs (List.mem_append_right _ List.mem_cons_self)
      rw [← List.append_assoc, phase_concat]
      constructor
      · intro hstart
        rw [hbefore.1 hstart]
        cases e with
        | encoded r =>
            have hr : r ≠ rid := by
              rintro rfl
              exact hlast rfl
            simp [Phase.next, hr]
        | moved r => simp [Phase.next]
        | lost => simp [Phase.next]
      · intro hend
        apply hbefore.2
        cases hmid : phase rid (log ++ evs) with
        | none =>
            rw [hmid] at hend
            simp [Phase.next] at hend
        | some ph =>
            rw [hmid] at hend
            cases e with
            | encoded r =>
                have hr : r ≠ rid := by
                  rintro rfl
                  exact hlast rfl
                simpa [Phase.next, hr] using hend
            | moved r =>
                simp only [Phase.next] at hend
                split at hend
                · simp at hend
                · exact hend
            | lost =>
                simp only [Phase.next] at hend
                split at hend
                · simp at hend
                · exact hend

section Handled

variable {i i' : Impl} {requests : List Pending} {asked : Nat} {log evs : List Happening}

theorem Handles.not_holds (hh : Handles i i' evs) {n : Nat} (hnot : ¬ i.Holds n) :
    ¬ i'.Holds n := by
  rintro ⟨rid, p', hp', hdone'⟩
  obtain ⟨p, hp, -, hdone, -⟩ := hh.kept rid p' hp'
  exact hnot ⟨rid, p, hp, hdone ▸ hdone'⟩

theorem Accounted.booked_handled (h : Accounted i requests asked log) (hh : Handles i i' evs)
    {rid : Nat} {p : Pending} (hp : i'.pending[rid]? = some p) :
    p.frame.rid = rid ∧ ∃ r ∈ requests, r.frame = p.frame ∧ r.done = p.done := by
  obtain ⟨q, hq, hframe, hdone, -, -⟩ := hh.kept rid p hp
  rw [hframe, hdone]
  exact h.booked rid q hq

theorem Accounted.again_handled (h : Accounted i requests asked log) (hh : Handles i i' evs)
    {rid : Nat} {p : Pending} (hp : i'.pending[rid]? = some p) (hretried : p.retried = true) :
    p.frame.kind = .Call ∧ i'.reconnect = true := by
  obtain ⟨q, hq, hframe, -, -, hfrom⟩ := hh.kept rid p hp
  rw [hframe, hh.reconnect]
  rcases hfrom hretried with hbefore | hcall
  · exact h.again rid q hq hbefore
  · exact hcall

theorem Accounted.once_handled (h : Accounted i requests asked log) (hh : Handles i i' evs)
    {n : Nat} (hn : n < asked) :
    (i'.answers n = 1 ∧ ¬ i'.Holds n) ∨ (i'.answers n = 0 ∧ i'.Holds n) := by
  rcases h.once n hn with ⟨hanswered, hnot⟩ | ⟨hwaits, rid, p, hp, hdone⟩
  · exact Or.inl ⟨(hh.others n hnot).trans hanswered, hh.not_holds hnot⟩
  · have hsole : ∀ (r : Nat) (q : Pending), i.pending[r]? = some q → q.done = some (.call n) →
        r = rid := fun r q hq hqdone => h.sole hp hq hdone hqdone
    rcases hh.answered n rid p hp hdone hsole with ⟨⟨p', hp'⟩, hsame⟩ | ⟨hgone, hqueued⟩
    · refine Or.inr ⟨hsame.trans hwaits, rid, p', hp', ?_⟩
      obtain ⟨q, hq, -, hqdone, -⟩ := hh.kept rid p' hp'
      obtain rfl := Option.some.inj (hp.symm.trans hq)
      exact hqdone.trans hdone
    · refine Or.inl ⟨by rw [hqueued, hwaits], ?_⟩
      rintro ⟨r, q', hq', hqdone'⟩
      obtain ⟨q, hq, -, hqdone, -⟩ := hh.kept r q' hq'
      obtain rfl := hsole r q hq (hqdone ▸ hqdone')
      rw [hgone] at hq'
      simp at hq'

/-- Requests under one id are one request. -/
theorem Accounted.eq_of_rid (h : Accounted i requests asked log) {r r' : Pending}
    (hr : r ∈ requests) (hr' : r' ∈ requests) (hrid : r.frame.rid = r'.frame.rid) : r = r' := by
  obtain ⟨k, hk⟩ := List.mem_iff_getElem?.mp hr
  obtain ⟨k', hk'⟩ := List.mem_iff_getElem?.mp hr'
  rw [h.numbered k r hk, h.numbered k' r' hk', Nat.add_right_cancel_iff] at hrid
  exact Option.some.inj (hk.symm.trans (hrid ▸ hk'))

theorem Accounted.twice_handled (h : Accounted i requests asked log) (hh : Handles i i' evs)
    {r : Pending} (hr : r ∈ requests) (htwice : phase r.frame.rid (log ++ evs) = some .twice) :
    r.frame.kind = .Call ∧ i'.reconnect = true := by
  by_cases hsent : .encoded r.frame.rid ∈ evs
  · -- the entry that was sent is in the table still, and was retried
    obtain ⟨p, hp⟩ := hh.sent _ hsent
    obtain ⟨ph, hph, hfits⟩ := hh.phased log h.phased r.frame.rid
    obtain rfl := Option.some.inj (htwice.symm.trans hph)
    have hretried : p.retried = true := by
      have hfits := hfits p hp
      simp only [Fits] at hfits
      split at hfits
      · simp at hfits
      · simpa using hfits
    obtain ⟨hrid, r', hr', hframe, -⟩ := h.booked_handled hh hp
    obtain rfl := h.eq_of_rid hr hr' (by rw [hframe, hrid])
    rw [hframe]
    exact h.again_handled hh hp hretried
  · have hbefore := h.twice r hr ((phase_unsent_of_quiet hsent).2 htwice)
    exact ⟨hbefore.1, hh.reconnect.trans hbefore.2⟩

theorem Accounted.handled (h : Accounted i requests asked log) (hh : Handles i i' evs) :
    Accounted i' requests asked (log ++ evs) := by
  refine ⟨hh.rid.trans h.counter, h.numbered, h.owners, h.single,
    fun _ _ hp => h.booked_handled hh hp, ?_, fun _ _ hp => h.again_handled hh hp,
    fun _ hn => h.once_handled hh hn, ?_, hh.phased log h.phased, ?_,
    fun _ hr => h.twice_handled hh hr⟩
  · intro rid p' hp' hinternal
    obtain ⟨p, hp, -, hdone, hsame, -⟩ := hh.kept rid p' hp'
    rw [hdone]
    exact h.silent rid p hp (hsame ▸ hinternal)
  · intro n hn
    have hnot : ¬ i.Holds n := by
      rintro ⟨rid, p, hp, hdone⟩
      exact absurd (h.done_of_entry hp hdone) (by omega)
    exact (hh.others n hnot).trans (h.later n hn)
  · intro rid hrid
    have hquiet : .encoded rid ∉ evs := by
      intro hsent
      obtain ⟨p', hp'⟩ := hh.sent rid hsent
      obtain ⟨p, hp, -⟩ := hh.kept rid p' hp'
      exact absurd (h.entry_le hp) (by omega)
    exact (phase_unsent_of_quiet hquiet).1 (h.unsent rid hrid)

end Handled

/-! ## 4. What each function does to the requests -/

theorem countP_replyTo (n : Nat) (done : Option Done) (reply : ExecReply) :
    (replyTo done reply).countP (Kit.repliesTo n) = if done = some (.call n) then 1 else 0 := by
  rw [List.countP_eq_length_filter]
  by_cases hown : done = some (.call n)
  · rw [if_pos hown, hown, Kit.replyTo_call]
    rfl
  · rw [if_neg hown, Kit.replyTo_filter hown]
    rfl

theorem answers_deliver (n : Nat) (i : Impl) (run : List Callback) :
    (i.deliver run).answers n = i.answers n + run.countP (Kit.repliesTo n) := by
  simp only [Impl.answers, Impl.deliver, List.countP_append]
  omega

/-- The callbacks of a loop over the requests, when only `calls` of a request's own entry
    can call it back. -/
theorem countP_swept (i : Impl) (calls : Pending → List Callback) (n : Nat)
    (hcalls : ∀ p : Pending, p.done ≠ some (.call n) → (calls p).filter (Kit.repliesTo n) = []) :
    (¬ i.Holds n →
      (i.pending.toList.flatMap fun e => calls e.2).countP (Kit.repliesTo n) = 0) ∧
    ∀ (rid : Nat) (p : Pending), i.pending[rid]? = some p →
      (∀ (r : Nat) (q : Pending), i.pending[r]? = some q → q.done = some (.call n) → r = rid) →
      (i.pending.toList.flatMap fun e => calls e.2).countP (Kit.repliesTo n) =
        (calls p).countP (Kit.repliesTo n) := by
  constructor
  · intro hnot
    rw [List.countP_eq_length_filter, filter_flatMap_eq_nil]
    · rfl
    · intro rid p hp
      exact hcalls p fun hdone => hnot ⟨rid, p, hp, hdone⟩
  · intro rid p hp hsole
    rw [List.countP_eq_length_filter, List.countP_eq_length_filter, filter_flatMap_eq hp]
    intro r q hq hne
    exact hcalls q fun hdone => hne (hsole r q hq hdone)

/-- Nothing is done to the table. -/
theorem Handles.quiet {i i' : Impl} (hpending : i'.pending = i.pending) (hrid : i'.rid = i.rid)
    (hreconnect : i'.reconnect = i.reconnect) (hanswers : ∀ n, i'.answers n = i.answers n) :
    Handles i i' [] := by
  refine ⟨hrid, hreconnect, ?_, fun n _ => hanswers n, ?_, by simp, ?_⟩
  · intro rid p hp
    exact ⟨p, hpending ▸ hp, rfl, rfl, rfl, Or.inl⟩
  · intro n rid p hp _ _
    exact Or.inl ⟨⟨p, hpending ▸ hp⟩, hanswers n⟩
  · intro log hphased rid
    rw [List.append_nil, hpending]
    exact hphased rid

/-- A Moved reply that finds no request. -/
theorem Handles.moved {i : Impl} {rid : Nat} (hnone : i.pending[rid]? = none) :
    Handles i i [.moved rid] := by
  refine ⟨rfl, rfl, fun r p hp => ⟨p, hp, rfl, rfl, rfl, Or.inl⟩, fun n _ => rfl, ?_, by simp, ?_⟩
  · intro n r p hp _ _
    exact Or.inl ⟨⟨p, hp⟩, rfl⟩
  · intro log hphased r
    obtain ⟨ph, hph, hfits⟩ := hphased r
    rw [phase_concat, hph]
    by_cases hr : rid = r
    · subst hr
      simp only [Phase.next]
      split
      · exact ⟨_, rfl, by simp [hnone]⟩
      · exact ⟨_, rfl, by simp [hnone]⟩
    · exact ⟨ph, by simp [Phase.next, hr], hfits⟩

/-- One request leaves the table with its callback. -/
theorem Handles.gone {i i' : Impl} {rid : Nat} {p : Pending} (hp : i.pending[rid]? = some p)
    (hrid : i'.rid = i.rid) (hreconnect : i'.reconnect = i.reconnect)
    (hlookup : ∀ r : Nat, i'.pending[r]? = if rid = r then none else i.pending[r]?)
    (hanswers : ∀ n, i'.answers n = i.answers n + if p.done = some (.call n) then 1 else 0) :
    Handles i i' [] := by
  have hkept : ∀ (r : Nat) (q : Pending), i'.pending[r]? = some q → i.pending[r]? = some q := by
    intro r q hq
    rw [hlookup] at hq
    split at hq
    · simp at hq
    · exact hq
  refine ⟨hrid, hreconnect, fun r q hq => ⟨q, hkept r q hq, rfl, rfl, rfl, Or.inl⟩, ?_, ?_,
    by simp, ?_⟩
  · intro n hnot
    rw [hanswers, if_neg fun hdone => hnot ⟨rid, p, hp, hdone⟩, Nat.add_zero]
  · intro n r q hq hdone hsole
    rw [hanswers, hlookup]
    by_cases hr : rid = r
    · subst hr
      obtain rfl := Option.some.inj (hp.symm.trans hq)
      exact Or.inr ⟨if_pos rfl, by rw [if_pos hdone]⟩
    · refine Or.inl ⟨⟨q, by rw [if_neg hr]; exact hq⟩, ?_⟩
      rw [if_neg fun hown => hr (hsole rid p hp hown), Nat.add_zero]
  · intro log hphased r
    rw [List.append_nil]
    obtain ⟨ph, hph, hfits⟩ := hphased r
    exact ⟨ph, hph, fun q hq => hfits q (hkept r q hq)⟩

theorem settle_handles {i : Impl} {rid : Nat} {p : Pending} (hp : i.pending[rid]? = some p)
    (reply : ExecReply) : Handles i (i.settle rid p reply) [] := by
  refine Handles.gone hp rfl rfl (Kit.getElem?_settled i rid p reply) fun n => ?_
  rw [Impl.settle, answers_deliver, countP_replyTo]
  rfl

theorem requeue_handles {i : Impl} {rid : Nat} {p : Pending} (hp : i.pending[rid]? = some p)
    (hfirst : p.retried = false) (hcall : p.frame.kind = .Call) (hon : i.reconnect = true) :
    Handles i (i.requeue rid p) [.moved rid] := by
  have hlookup := Kit.getElem?_requeue i rid p
  refine ⟨rfl, rfl, ?_, fun n _ => rfl, ?_, by simp, ?_⟩
  · intro r q hq
    rw [hlookup] at hq
    split at hq
    · rename_i hr
      obtain rfl := Option.some.inj hq
      exact ⟨p, hr ▸ hp, rfl, rfl, rfl, fun _ => Or.inr ⟨hcall, hon⟩⟩
    · exact ⟨q, hq, rfl, rfl, rfl, Or.inl⟩
  · intro n r q hq _ _
    refine Or.inl ⟨?_, rfl⟩
    rw [hlookup]
    split
    · exact ⟨_, rfl⟩
    · exact ⟨q, hq⟩
  · intro log hphased r
    obtain ⟨ph, hph, hfits⟩ := hphased r
    rw [phase_concat, hph, hlookup]
    by_cases hr : rid = r
    · subst hr
      have hfits := hfits p hp
      simp only [Fits, hfirst, Bool.false_eq_true, false_and, or_false] at hfits
      rw [if_pos rfl]
      split at hfits
      · exact ⟨.unsent, by simp [Phase.next, hfits], by simp [Fits]⟩
      · exact ⟨.between, by simp [Phase.next, hfits], by simp [Fits]⟩
    · rw [if_neg hr]
      exact ⟨ph, by simp [Phase.next, hr], hfits⟩

theorem failAll_handles (i : Impl) (reply : ExecReply) :
    Handles i (i.failAllLocked reply) [] := by
  have hempty : ∀ rid : Nat, (i.failAllLocked reply).pending[rid]? = none := by
    intro rid
    simp [Impl.failAllLocked]
  have hanswers : ∀ n, (i.failAllLocked reply).answers n = i.answers n +
      (i.pending.toList.flatMap fun e => replyTo e.2.done reply).countP (Kit.repliesTo n) :=
    fun n => answers_deliver n i _
  have hswept : ∀ n, _ := fun n =>
    countP_swept i (fun p => replyTo p.done reply) n fun p hother => Kit.replyTo_filter hother
  refine ⟨rfl, rfl, ?_, ?_, ?_, by simp, ?_⟩
  · intro rid p hp
    rw [hempty] at hp
    simp at hp
  · intro n hnot
    rw [hanswers, (hswept n).1 hnot, Nat.add_zero]
  · intro n rid p hp hdone hsole
    refine Or.inr ⟨hempty rid, ?_⟩
    rw [hanswers, (hswept n).2 rid p hp hsole, countP_replyTo, if_pos hdone]
  · intro log hphased rid
    rw [List.append_nil, hempty]
    obtain ⟨ph, hph, -⟩ := hphased rid
    exact ⟨ph, hph, by simp⟩

/-- An entry that stays when the connection goes. -/
theorem lostEntry_eq_some {reconnect : Bool} {p q : Pending}
    (hentry : lostEntry reconnect p = some q) :
    (p.gen = 0 ∧ q = p) ∨
      (p.gen ≠ 0 ∧ p.retried = false ∧ p.frame.kind = .Call ∧ reconnect = true ∧
        q = { p with retried := true, gen := 0 }) := by
  simp only [lostEntry] at hentry
  split at hentry
  · rename_i hgen
    exact Or.inl ⟨hgen, (Option.some.inj hentry).symm⟩
  · rename_i hgen
    split at hentry
    · simp at hentry
    · split at hentry
      · rename_i hagain
        simp only [Bool.and_eq_true, Bool.not_eq_true', beq_iff_eq] at hagain
        exact Or.inr ⟨hgen, hagain.1.2, hagain.2, hagain.1.1, (Option.some.inj hentry).symm⟩
      · simp at hentry

/-- A request is kept without a callback, or gone with one, unless nobody waits for it. -/
theorem lostEntry_callback (reconnect : Bool) (reply : ExecReply) {p : Pending}
    (hinternal : p.internal = false) :
    (∃ q, lostEntry reconnect p = some q ∧ lostCallback reconnect reply p = []) ∨
      (lostEntry reconnect p = none ∧ lostCallback reconnect reply p = replyTo p.done reply) := by
  by_cases hgen : p.gen = 0
  · exact Or.inl ⟨p, by simp [lostEntry, hgen], by simp [lostCallback, hgen]⟩
  by_cases hagain : (reconnect && !p.retried && p.frame.kind == .Call) = true
  · refine Or.inl ⟨{ p with retried := true, gen := 0 }, ?_, ?_⟩
    · rw [lostEntry, if_neg hgen, if_neg (by simp [hinternal]), if_pos hagain]
    · rw [lostCallback, if_pos (by simp [hagain])]
  · refine Or.inr ⟨?_, ?_⟩
    · rw [lostEntry, if_neg hgen, if_neg (by simp [hinternal]), if_neg hagain]
    · rw [lostCallback, if_neg (by simpa [hgen, hinternal] using hagain)]

theorem leave_handles {i : Impl} (reply : ExecReply)
    (hsilent : ∀ (rid : Nat) (p : Pending), i.pending[rid]? = some p → p.internal = true →
      p.done = none) :
    Handles i (i.leaveLocked reply) [.lost] := by
  have hlookup : ∀ rid : Nat, (i.leaveLocked reply).pending[rid]? =
      i.pending[rid]?.bind (lostEntry i.reconnect) := fun rid => getElem?_sweep _ _ _
  have hanswers : ∀ n, (i.leaveLocked reply).answers n = i.answers n +
      (i.pending.toList.flatMap fun e =>
        lostCallback i.reconnect reply e.2).countP (Kit.repliesTo n) :=
    fun n => answers_deliver n i _
  have hswept : ∀ n, _ := fun n =>
    countP_swept i (lostCallback i.reconnect reply) n (by
      intro p hother
      simp only [lostCallback]
      split
      · rfl
      · exact Kit.replyTo_filter hother)
  have hfrom : ∀ (rid : Nat) (q : Pending), (i.leaveLocked reply).pending[rid]? = some q →
      ∃ p, i.pending[rid]? = some p ∧ lostEntry i.reconnect p = some q := by
    intro rid q hq
    rw [hlookup] at hq
    exact Option.bind_eq_some_iff.mp hq
  refine ⟨rfl, rfl, ?_, ?_, ?_, by simp, ?_⟩
  · intro rid q hq
    obtain ⟨p, hp, hentry⟩ := hfrom rid q hq
    rcases lostEntry_eq_some hentry with ⟨-, rfl⟩ | ⟨-, -, hcall, hon, rfl⟩
    · exact ⟨q, hp, rfl, rfl, rfl, Or.inl⟩
    · exact ⟨p, hp, rfl, rfl, rfl, fun _ => Or.inr ⟨hcall, hon⟩⟩
  · intro n hnot
    rw [hanswers, (hswept n).1 hnot, Nat.add_zero]
  · intro n rid p hp hdone hsole
    have hinternal : p.internal = false := by
      rw [← Bool.not_eq_true]
      intro hinternal
      rw [hsilent rid p hp hinternal] at hdone
      simp at hdone
    rw [hanswers, (hswept n).2 rid p hp hsole, hlookup, hp, Option.bind_some]
    rcases lostEntry_callback i.reconnect reply hinternal with
      ⟨q, hentry, hcalls⟩ | ⟨hentry, hcalls⟩
    · exact Or.inl ⟨⟨q, hentry⟩, by rw [hcalls]; rfl⟩
    · exact Or.inr ⟨hentry, by rw [hcalls, countP_replyTo, if_pos hdone]⟩
  · intro log hphased rid
    obtain ⟨ph, hph, hfits⟩ := hphased rid
    rw [phase_concat, hph]
    simp only [Phase.next]
    split
    · -- it was out: it stays as one that was sent before
      rename_i hout
      refine ⟨.between, rfl, fun q hq => ?_⟩
      obtain ⟨p, hp, hentry⟩ := hfrom rid q hq
      have hfits := hfits p hp
      rcases lostEntry_eq_some hentry with ⟨hgen, -⟩ | ⟨-, -, -, -, rfl⟩
      · rw [Fits, if_pos hgen, hout] at hfits
        simp at hfits
      · simp [Fits]
    · rename_i hout
      refine ⟨ph, rfl, fun q hq => ?_⟩
      obtain ⟨p, hp, hentry⟩ := hfrom rid q hq
      have hfits := hfits p hp
      rcases lostEntry_eq_some hentry with ⟨-, rfl⟩ | ⟨hgen, hfirst, -, -, rfl⟩
      · exact hfits
      · rw [Fits, if_neg hgen, hfirst] at hfits
        simp [hout] at hfits

theorem sendLocked_handles {i : Impl} {rid : Nat} {p : Pending} (hp : i.pending[rid]? = some p)
    (hwaits : p.gen = 0) (hlabel : p.frame.rid = rid) (hpos : 0 < i.gen) :
    Handles i (i.sendLocked rid) ((sentFrames p).map fun f => .encoded f.rid) := by
  have hlookup : ∀ r : Nat, (i.sendLocked rid).pending[r]? =
      if rid = r then sentEntry i.gen p else i.pending[r]? := by
    intro r
    rw [sendLocked_eq hp]
    simp only [getElem?_turn, Nat.compare_eq_eq]
  have hanswers : ∀ n, (i.sendLocked rid).answers n =
      i.answers n + (unsentCallbacks p).countP (Kit.repliesTo n) := by
    intro n
    rw [sendLocked_eq hp]
    simp only [Impl.answers, List.countP_append]
    omega
  have hfields : (i.sendLocked rid).rid = i.rid ∧ (i.sendLocked rid).reconnect = i.reconnect := by
    rw [sendLocked_eq hp]
    exact ⟨rfl, rfl⟩
  by_cases hencodes : p.frame.encodes = true
  · have hevs : ((sentFrames p).map fun f => Happening.encoded f.rid) = [.encoded rid] := by
      simp [sentFrames, hencodes, hlabel]
    have hquiet : ∀ n, (i.sendLocked rid).answers n = i.answers n := by
      intro n
      rw [hanswers]
      simp [unsentCallbacks, hencodes]
    rw [hevs]
    simp only [sentEntry, hencodes, if_true] at hlookup
    refine ⟨hfields.1, hfields.2, ?_, fun n _ => hquiet n, ?_, ?_, ?_⟩
    · intro r q hq
      rw [hlookup] at hq
      split at hq
      · rename_i hr
        obtain rfl := Option.some.inj hq
        exact ⟨p, hr ▸ hp, rfl, rfl, rfl, Or.inl⟩
      · exact ⟨q, hq, rfl, rfl, rfl, Or.inl⟩
    · intro n r q hq _ _
      refine Or.inl ⟨?_, hquiet n⟩
      rw [hlookup]
      split
      · exact ⟨_, rfl⟩
      · exact ⟨q, hq⟩
    · intro r hr
      obtain rfl : r = rid := by simpa using hr
      exact ⟨_, by rw [hlookup, if_pos rfl]⟩
    · intro log hphased r
      obtain ⟨ph, hph, hfits⟩ := hphased r
      rw [phase_concat, hph, hlookup]
      by_cases hr : rid = r
      · subst hr
        have hgen : ¬ i.gen = 0 := by omega
        have hfits := hfits p hp
        rw [Fits, if_pos hwaits] at hfits
        rw [if_pos rfl]
        rcases hfits with rfl | ⟨hretried, rfl⟩
        · exact ⟨.out, by simp [Phase.next], by simp [Fits, hgen]⟩
        · exact ⟨.twice, by simp [Phase.next], by simp [Fits, hgen, hretried]⟩
      · rw [if_neg hr]
        exact ⟨ph, by simp [Phase.next, hr], hfits⟩
  · have hevs : ((sentFrames p).map fun f => Happening.encoded f.rid) = [] := by
      simp [sentFrames, hencodes]
    have hfails : ∀ n, (i.sendLocked rid).answers n =
        i.answers n + if p.done = some (.call n) then 1 else 0 := by
      intro n
      rw [hanswers, unsentCallbacks, if_neg hencodes, countP_replyTo]
    rw [hevs]
    simp only [sentEntry, hencodes, Bool.false_eq_true, if_false] at hlookup
    exact Handles.gone hp hfields.1 hfields.2 hlookup hfails

/-! ## 5. Whole functions -/

section Whole

variable {i : Impl} {requests : List Pending} {asked : Nat} {log : List Happening}

theorem Accounted.quiet (h : Accounted i requests asked log) {i' : Impl}
    (hpending : i'.pending = i.pending) (hrid : i'.rid = i.rid)
    (hreconnect : i'.reconnect = i.reconnect) (hanswers : ∀ n, i'.answers n = i.answers n) :
    Accounted i' requests asked log := by
  have hsame := h.handled (Handles.quiet hpending hrid hreconnect hanswers)
  rwa [List.append_nil] at hsame

theorem Accounted.failAll (h : Accounted i requests asked log) (reply : ExecReply) :
    Accounted (i.failAllLocked reply) requests asked log := by
  have hfailed := h.handled (failAll_handles i reply)
  rwa [List.append_nil] at hfailed

theorem Accounted.settle (h : Accounted i requests asked log) {rid : Nat} {p : Pending}
    (hp : i.pending[rid]? = some p) (reply : ExecReply) :
    Accounted (i.settle rid p reply) requests asked log := by
  have hsettled := h.handled (settle_handles hp reply)
  rwa [List.append_nil] at hsettled

theorem Accounted.lose (h : Accounted i requests asked log) (reply : ExecReply) :
    Accounted (i.loseLocked reply) requests asked (log ++ [Happening.lost]) := by
  have hleft := h.handled (leave_handles reply h.silent)
  simp only [Impl.loseLocked]
  split
  · exact hleft.failAll reply
  · split
    · exact hleft.quiet rfl rfl rfl fun _ => rfl
    · exact hleft.failAll reply

/-- The callback of a request is none or a new one, and counted. -/
def NewDone (asked asked' : Nat) (done : Option Done) : Prop :=
  (done = none ∧ asked' = asked) ∨ (done = some (.call asked) ∧ asked' = asked + 1)

theorem NewDone.of_some {asked' n : Nat} {done : Option Done} (h : NewDone asked asked' done)
    (hcall : done = some (.call n)) : n = asked ∧ asked' = asked + 1 := by
  rcases h with ⟨hnone, -⟩ | ⟨hown, hnext⟩
  · rw [hnone] at hcall
    simp at hcall
  · rw [hown, Option.some.injEq, Done.call.injEq] at hcall
    exact ⟨hcall.symm, hnext⟩

theorem NewDone.le {asked' : Nat} {done : Option Done} (h : NewDone asked asked' done) :
    asked ≤ asked' := by
  rcases h with ⟨-, rfl⟩ | ⟨-, rfl⟩
  · exact Nat.le_refl _
  · exact Nat.le_succ _

/-- Nobody who asked before has the callback of a new request. -/
theorem Accounted.done_new (h : Accounted i requests asked log) {asked' : Nat}
    {done : Option Done} (hdone : NewDone asked asked' done) {r : Pending} (hr : r ∈ requests)
    (hsame : r.done = done) : r.done = none := by
  rcases h.owners r hr with hnone | ⟨n, hn, hcall⟩
  · exact hnone
  · have hown := (hdone.of_some (hsame.symm.trans hcall)).1
    omega

theorem Accounted.lookup_enqueue (h : Accounted i requests asked log) (p : Pending) (rid : Nat) :
    (i.enqueue p).pending[rid]? = if i.rid = rid then some p else i.pending[rid]? :=
  getElem?_enqueue h.free rid

theorem Accounted.enqueue_keeps (h : Accounted i requests asked log) (p : Pending) {rid : Nat}
    {q : Pending} (hq : i.pending[rid]? = some q) : (i.enqueue p).pending[rid]? = some q := by
  rw [h.lookup_enqueue, if_neg, hq]
  rintro rfl
  rw [h.free] at hq
  simp at hq

theorem Accounted.once_enqueue (h : Accounted i requests asked log) {p : Pending} {asked' : Nat}
    (hdone : NewDone asked asked' p.done) {n : Nat} (hn : n < asked') :
    ((i.enqueue p).answers n = 1 ∧ ¬ (i.enqueue p).Holds n) ∨
      ((i.enqueue p).answers n = 0 ∧ (i.enqueue p).Holds n) := by
  by_cases hold : n < asked
  · rcases h.once n hold with ⟨hanswered, hnot⟩ | ⟨hwaits, rid, q, hq, hcall⟩
    · refine Or.inl ⟨hanswered, ?_⟩
      rintro ⟨rid, q, hq, hcall⟩
      rcases Kit.getElem?_enqueued hq with hq | ⟨-, rfl, -⟩
      · exact hnot ⟨rid, q, hq, hcall⟩
      · have hown := (hdone.of_some hcall).1
        omega
    · exact Or.inr ⟨hwaits, rid, q, h.enqueue_keeps p hq, hcall⟩
  · rcases hdone with ⟨-, rfl⟩ | ⟨hown, rfl⟩
    · exact absurd hn hold
    · obtain rfl : n = asked := by omega
      refine Or.inr ⟨h.later n (Nat.le_refl n), i.rid, p, ?_, hown⟩
      rw [h.lookup_enqueue, if_pos rfl]

/-- A request is put in the table. -/
theorem Accounted.enqueue (h : Accounted i requests asked log) {p : Pending} {asked' : Nat}
    (hrid : p.frame.rid = i.rid) (hgen : p.gen = 0) (hfirst : p.retried = false)
    (hsilent : p.internal = true → p.done = none) (hdone : NewDone asked asked' p.done)
    (hfew : requests.length + 1 < 2 ^ 32 - 1) :
    Accounted (i.enqueue p) (requests ++ [p]) asked' log := by
  have hasked := hdone.le
  have hunsent := h.unsent (requests.length + 1) (Nat.lt_succ_self _)
  constructor
  case counter =>
    have hcounter := h.counter
    simp only [Impl.enqueue, nextRid, List.length_append, List.length_singleton]
    rw [if_neg (by omega), hcounter]
  case numbered =>
    intro k r hk
    rw [List.getElem?_append] at hk
    split at hk
    · exact h.numbered k r hk
    · obtain ⟨hlt, hr⟩ := List.getElem?_eq_some_iff.mp hk
      simp only [List.length_singleton] at hlt
      obtain rfl : r = p := by simpa using hr.symm
      rw [hrid, h.counter]
      omega
  case owners =>
    intro r hr
    rcases List.mem_append.mp hr with hold | hlast
    · rcases h.owners r hold with hnone | ⟨n, hn, hcall⟩
      · exact Or.inl hnone
      · exact Or.inr ⟨n, by omega, hcall⟩
    · rw [List.mem_singleton.mp hlast]
      rcases hdone with ⟨hnone, -⟩ | ⟨hown, rfl⟩
      · exact Or.inl hnone
      · exact Or.inr ⟨asked, Nat.lt_succ_self _, hown⟩
  case single =>
    intro r hr r' hr' hsame hsome
    rcases List.mem_append.mp hr with hold | hlast
    · rcases List.mem_append.mp hr' with hold' | hlast'
      · exact h.single r hold r' hold' hsame hsome
      · rw [List.mem_singleton.mp hlast'] at hsame
        exact absurd (h.done_new hdone hold hsame) hsome
    · rcases List.mem_append.mp hr' with hold' | hlast'
      · rw [List.mem_singleton.mp hlast] at hsame hsome
        exact absurd (hsame.trans (h.done_new hdone hold' hsame.symm)) hsome
      · rw [List.mem_singleton.mp hlast, List.mem_singleton.mp hlast']
  case booked =>
    intro rid q hq
    rcases Kit.getElem?_enqueued hq with hq | ⟨rfl, rfl, -⟩
    · obtain ⟨hlabel, r, hr, hframe, hsame⟩ := h.booked rid q hq
      exact ⟨hlabel, r, List.mem_append_left _ hr, hframe, hsame⟩
    · exact ⟨hrid, q, List.mem_append_right _ List.mem_cons_self, rfl, rfl⟩
  case silent =>
    intro rid q hq
    rcases Kit.getElem?_enqueued hq with hq | ⟨-, rfl, -⟩
    · exact h.silent rid q hq
    · exact hsilent
  case again =>
    intro rid q hq hretried
    rcases Kit.getElem?_enqueued hq with hq | ⟨-, rfl, -⟩
    · exact h.again rid q hq hretried
    · exact absurd (hretried.symm.trans hfirst) (by simp)
  case once => exact fun n hn => h.once_enqueue hdone hn
  case later => exact fun n hn => h.later n (by omega)
  case phased =>
    intro rid
    obtain ⟨ph, hph, hfits⟩ := h.phased rid
    refine ⟨ph, hph, fun q hq => ?_⟩
    rcases Kit.getElem?_enqueued hq with hq | ⟨rfl, rfl, -⟩
    · exact hfits q hq
    · rw [h.counter, hunsent] at hph
      obtain rfl := Option.some.inj hph
      simp [Fits, hgen]
  case unsent =>
    intro rid hlt
    rw [List.length_append, List.length_singleton] at hlt
    exact h.unsent rid (by omega)
  case twice =>
    intro r hr htwice
    rcases List.mem_append.mp hr with hold | hlast
    · exact h.twice r hold htwice
    · rw [List.mem_singleton.mp hlast, hrid, h.counter, hunsent] at htwice
      simp at htwice

/-- A request on a line that is closed is answered at once. -/
theorem Accounted.refuse (h : Accounted i requests asked log) {done : Option Done}
    (hdone : done = none ∨ done = some (.call asked)) (reply : ExecReply) :
    Accounted (i.deliver (replyTo done reply)) requests (asked + done.toList.length) log := by
  rcases hdone with rfl | rfl
  · exact h.quiet rfl rfl rfl fun n => by simp [answers_deliver, replyTo]
  have hanswers : ∀ n, (i.deliver (replyTo (some (.call asked)) reply)).answers n =
      i.answers n + if asked = n then 1 else 0 := by
    intro n
    rw [answers_deliver, countP_replyTo]
    simp
  refine ⟨h.counter, h.numbered, ?_, h.single, h.booked, h.silent, h.again, ?_, ?_, h.phased,
    h.unsent, h.twice⟩
  · intro r hr
    rcases h.owners r hr with hnone | ⟨n, hn, hcall⟩
    · exact Or.inl hnone
    · exact Or.inr ⟨n, Nat.lt_succ_of_lt hn, hcall⟩
  · intro n hn
    rw [hanswers]
    rcases Nat.lt_succ_iff_lt_or_eq.mp hn with hold | rfl
    · rw [if_neg (by omega), Nat.add_zero]
      exact h.once n hold
    · rw [if_pos rfl, h.later n (Nat.le_refl n)]
      refine Or.inl ⟨rfl, ?_⟩
      rintro ⟨rid, p, hp, hcall⟩
      exact absurd (h.done_of_entry hp hcall) (Nat.lt_irrefl n)
  · intro n hn
    have hlt : asked < n := hn
    rw [hanswers, if_neg (by omega), Nat.add_zero]
    exact h.later n (by omega)

theorem Accounted.renewed (h : Accounted i requests asked log) (subs : List Sub)
    (hfew : requests.length + subs.length < 2 ^ 32 - 1) :
    Accounted (subs.foldl Impl.renew i) (requests ++ renewals subs i.rid) asked log := by
  induction subs generalizing i requests with
  | nil => simpa [renewals] using h
  | cons sub subs ih =>
      rw [List.length_cons] at hfew
      have hone : Accounted (i.renew sub) (requests ++ [renewal i.rid sub]) asked log :=
        h.enqueue (p := renewal i.rid sub) rfl rfl rfl (fun _ => rfl) (Or.inl ⟨rfl, rfl⟩)
          (by omega)
      have hrest := ih hone (by
        rw [List.length_append, List.length_singleton]
        omega)
      rw [List.append_assoc] at hrest
      exact hrest

/-- Requests that wait are sent, one after the other. -/
theorem Accounted.sendAll (h : Accounted i requests asked log) (hpos : 0 < i.gen) (rids : List Nat)
    (hdistinct : rids.Nodup)
    (hwaits : ∀ rid ∈ rids, ∃ p : Pending, i.pending[rid]? = some p ∧ p.gen = 0) :
    ∃ frames, (i.sendAll rids).toSend = i.toSend ++ frames ∧
      Accounted (i.sendAll rids) requests asked (log ++ frames.map fun f => .encoded f.rid) := by
  induction rids generalizing i log with
  | nil => exact ⟨[], by simp [Impl.sendAll], by simpa [Impl.sendAll] using h⟩
  | cons rid rids ih =>
      rw [List.nodup_cons] at hdistinct
      obtain ⟨p, hp, hgen⟩ := hwaits rid List.mem_cons_self
      have hsent := h.handled (sendLocked_handles hp hgen (h.booked rid p hp).1 hpos)
      have hfields : (i.sendLocked rid).gen = i.gen ∧
          (i.sendLocked rid).toSend = i.toSend ++ sentFrames p := by
        rw [sendLocked_eq hp]
        exact ⟨rfl, rfl⟩
      have hothers : ∀ r ∈ rids, ∃ p : Pending,
          (i.sendLocked rid).pending[r]? = some p ∧ p.gen = 0 := by
        intro r hr
        have hne : rid ≠ r := by
          rintro rfl
          exact hdistinct.1 hr
        obtain ⟨q, hq, hqgen⟩ := hwaits r (List.mem_cons_of_mem _ hr)
        refine ⟨q, ?_, hqgen⟩
        rw [sendLocked_eq hp]
        simp only [getElem?_turn, Nat.compare_eq_eq, if_neg hne]
        exact hq
      obtain ⟨frames, htoSend, hrest⟩ := ih hsent (hfields.1 ▸ hpos) hdistinct.2 hothers
      refine ⟨sentFrames p ++ frames, ?_, ?_⟩
      · rw [← List.append_assoc, ← hfields.2]
        exact htoSend
      · rw [List.map_append, ← List.append_assoc]
        exact hrest

theorem Accounted.onOpen (h : Accounted i requests asked log) (hclosed : i.closed = false)
    (hpos : 0 < i.gen)
    (hfew : i.everOpened = true →
      requests.length + (i.subs.toList.map Prod.snd).length < 2 ^ 32 - 1) :
    ∃ frames, i.onOpen.toSend = i.toSend ++ frames ∧
      Accounted i.onOpen
        (requests ++ if i.everOpened = true then renewals (i.subs.toList.map Prod.snd) i.rid else [])
        asked (log ++ frames.map fun f => .encoded f.rid) := by
  have hrenewed : Accounted i.renewAll (requests ++ if i.everOpened = true then
      renewals (i.subs.toList.map Prod.snd) i.rid else []) asked log := by
    simp only [Impl.renewAll]
    by_cases hagain : i.everOpened = true
    · simp only [hagain, if_true]
      exact h.renewed _ (hfew hagain)
    · simpa [hagain] using h
  have hfields : i.renewAll.gen = i.gen ∧ i.renewAll.toSend = i.toSend := by
    simp only [Impl.renewAll]
    split
    · rw [foldl_renew_fields]
      exact ⟨rfl, rfl⟩
    · exact ⟨rfl, rfl⟩
  simp only [Impl.onOpen, hclosed, Bool.false_eq_true, if_false]
  rw [← hfields.2]
  apply Accounted.sendAll
  · exact hrenewed.quiet rfl rfl rfl fun _ => rfl
  · exact hfields.1 ▸ hpos
  · exact waitingEntries_nodup _
  · intro rid hrid
    obtain ⟨⟨r, p⟩, hmem, rfl⟩ := List.mem_map.mp hrid
    exact ⟨p, mem_waitingEntries.mp hmem⟩

theorem Accounted.request (h : Accounted i requests asked log) (hclosed : i.closed = false)
    (hpos : i.ws = true → 0 < i.gen) (frame : ClientFrame) {done : Option Done} {internal : Bool}
    (timeoutMs : Nat) (hdone : done = none ∨ done = some (.call asked))
    (hsilent : internal = true → done = none) (hfew : requests.length + 1 < 2 ^ 32 - 1) :
    ∃ frames, (i.request frame done internal timeoutMs).toSend = i.toSend ++ frames ∧
      Accounted (i.request frame done internal timeoutMs)
        (requests ++ [i.newRequest frame done internal timeoutMs]) (asked + done.toList.length)
        (log ++ frames.map fun f => .encoded f.rid) := by
  have hqueued : Accounted (i.enqueue (i.newRequest frame done internal timeoutMs))
      (requests ++ [i.newRequest frame done internal timeoutMs]) (asked + done.toList.length)
      log := by
    apply h.enqueue rfl rfl rfl hsilent _ hfew
    rcases hdone with rfl | rfl
    · exact Or.inl ⟨rfl, rfl⟩
    · exact Or.inr ⟨rfl, rfl⟩
  have hnothing : ∀ {i' : Impl}, i'.toSend = i.toSend → Accounted i'
      (requests ++ [i.newRequest frame done internal timeoutMs]) (asked + done.toList.length) log →
      ∃ frames, i'.toSend = i.toSend ++ frames ∧ Accounted i'
        (requests ++ [i.newRequest frame done internal timeoutMs]) (asked + done.toList.length)
        (log ++ frames.map fun f => .encoded f.rid) := by
    intro i' htoSend h'
    exact ⟨[], by simp [htoSend], by simpa using h'⟩
  simp only [Impl.request, hclosed, Bool.false_eq_true, if_false]
  split
  · rename_i hopen
    rw [Bool.and_eq_true] at hopen
    have hone := hqueued.sendAll (hpos hopen.1) [i.rid] (by simp) (by
      intro rid hrid
      rw [List.mem_singleton.mp hrid, getElem?_enqueue h.free, if_pos rfl]
      exact ⟨_, rfl, rfl⟩)
    exact hone
  · split
    · exact hnothing rfl (hqueued.quiet rfl rfl rfl fun _ => rfl)
    · exact hnothing rfl hqueued

/-- A reply arrives, on the current connection or on an earlier one. -/
theorem Accounted.onReply (h : Accounted i requests asked log) (hpos : i.ws = true → 0 < i.gen)
    (current : Bool) (rid : Nat) (reply : ExecReply) :
    ∃ frames, (i.onReply current rid reply).toSend = i.toSend ++ frames ∧
      Accounted (i.onReply current rid reply) requests asked
        (log ++ ((if reply.status = .Moved ∧ i.closed = false then [.moved rid] else []) ++
          if (i.onReply current rid reply).gen = i.gen then [] else [.lost]) ++
          frames.map fun f => .encoded f.rid) := by
  have hnothing : ∀ {i' : Impl} {evs : List Happening}, i'.toSend = i.toSend → i'.gen = i.gen →
      Accounted i' requests asked (log ++ evs) →
      ∃ frames, i'.toSend = i.toSend ++ frames ∧ Accounted i' requests asked
        (log ++ (evs ++ if i'.gen = i.gen then [] else [.lost]) ++
          frames.map fun f => .encoded f.rid) := by
    intro i' evs htoSend hgen h'
    exact ⟨[], by simp [htoSend], by simpa [hgen] using h'⟩
  by_cases hclosed : i.closed = true
  · have hignored : i.onReply current rid reply = i := by simp [Impl.onReply, hclosed]
    rw [hignored]
    exact hnothing rfl rfl (by simpa [hclosed] using h)
  rw [Bool.not_eq_true] at hclosed
  simp only [hclosed, and_true]
  cases hp : i.pending[rid]? with
  | none =>
      have hignored : i.onReply current rid reply = i := by simp [Impl.onReply, hclosed, hp]
      rw [hignored]
      apply hnothing rfl rfl
      split
      · exact h.handled (Handles.moved hp)
      · simpa using h
  | some p =>
      by_cases hmoves : (reply.status == .Moved && p.frame.kind == .Call && !p.retried &&
          i.reconnect) = true
      · have hunfold : i.onReply current rid reply =
            if current && i.ws then
              (i.requeue rid p).loseLocked
                ⟨.Unavailable, "the connection moved to another host".toList⟩
            else if i.ws && i.isOpen then (i.requeue rid p).sendLocked rid
            else i.requeue rid p := by
          simp only [Impl.onReply, hclosed, hp, hmoves, Bool.false_eq_true, if_false, if_true]
        simp only [Bool.and_eq_true, beq_iff_eq, Bool.not_eq_true'] at hmoves
        obtain ⟨⟨⟨hmoved, hcall⟩, hfirst⟩, hon⟩ := hmoves
        have hwaits := h.handled (requeue_handles hp hfirst hcall hon)
        rw [hunfold, if_pos hmoved]
        split
        · -- the line leaves this host
          have hlost := loseLocked_subs (i.requeue rid p)
            ⟨.Unavailable, "the connection moved to another host".toList⟩
          have hgen := (loseLocked_fields (i.requeue rid p)
            ⟨.Unavailable, "the connection moved to another host".toList⟩).2.2.1
          have hnew : ¬ ((i.requeue rid p).loseLocked
              ⟨.Unavailable, "the connection moved to another host".toList⟩).gen = i.gen := by
            rw [hgen]
            exact Nat.succ_ne_self i.gen
          refine ⟨[], by rw [hlost.2.2.2.1, List.append_nil]; rfl, ?_⟩
          rw [if_neg hnew, List.map_nil, List.append_nil, ← List.append_assoc]
          exact hwaits.lose _
        · split
          · rename_i hopen
            rw [Bool.and_eq_true] at hopen
            have hentry : (i.requeue rid p).pending[rid]? =
                some { p with retried := true, gen := 0 } := by
              rw [Kit.getElem?_requeue, if_pos rfl]
            have hsent := hwaits.handled (sendLocked_handles hentry rfl (h.booked rid p hp).1
              (hpos hopen.1))
            have hfields : ((i.requeue rid p).sendLocked rid).gen = i.gen ∧
                ((i.requeue rid p).sendLocked rid).toSend =
                  i.toSend ++ sentFrames { p with retried := true, gen := 0 } := by
              rw [sendLocked_eq hentry]
              exact ⟨rfl, rfl⟩
            refine ⟨_, hfields.2, ?_⟩
            rw [if_pos hfields.1, List.append_nil]
            exact hsent
          · exact hnothing rfl rfl hwaits
      · have hunfold : i.onReply current rid reply = i.settle rid p reply := by
          simp only [Impl.onReply, hclosed, hp, hmoves, Bool.false_eq_true, if_false]
        have hsettled := h.settle hp reply
        have hsame : (i.settle rid p reply).toSend = i.toSend ∧
            (i.settle rid p reply).gen = i.gen := ⟨rfl, rfl⟩
        rw [hunfold]
        apply hnothing hsame.1 hsame.2
        split
        · apply hsettled.handled (Handles.moved _)
          rw [Kit.getElem?_settled, if_pos rfl]
        · simpa using hsettled

end Whole

/-! ### Functions that send nothing -/

/-- The books stay as they are, and no frame is put in line. -/
def Undisturbed (i i' : Impl) : Prop :=
  i'.toSend = i.toSend ∧ ∀ (requests : List Pending) (asked : Nat) (log : List Happening),
    Accounted i requests asked log → Accounted i' requests asked log

section Undisturbed

variable {i : Impl}

theorem Undisturbed.refl (i : Impl) : Undisturbed i i := ⟨rfl, fun _ _ _ h => h⟩

theorem Undisturbed.trans {i₁ i₂ i₃ : Impl} (h₁ : Undisturbed i₁ i₂) (h₂ : Undisturbed i₂ i₃) : Undisturbed i₁ i₃ :=
  ⟨h₂.1.trans h₁.1, fun requests asked log h => h₂.2 _ _ _ (h₁.2 requests asked log h)⟩

theorem Undisturbed.quiet {i' : Impl} (htoSend : i'.toSend = i.toSend)
    (hpending : i'.pending = i.pending) (hrid : i'.rid = i.rid)
    (hreconnect : i'.reconnect = i.reconnect) (hanswers : ∀ n, i'.answers n = i.answers n) :
    Undisturbed i i' := ⟨htoSend, fun _ _ _ h => h.quiet hpending hrid hreconnect hanswers⟩

theorem failAll_undisturbed (i : Impl) (reply : ExecReply) : Undisturbed i (i.failAllLocked reply) :=
  ⟨rfl, fun _ _ _ h => h.failAll reply⟩

theorem connect_undisturbed (i : Impl) : Undisturbed i i.connect := by
  simp only [Impl.connect]
  split
  · exact Undisturbed.refl i
  · split
    · exact Undisturbed.quiet rfl rfl rfl rfl fun _ => rfl
    · exact Undisturbed.refl i

theorem reconnectTick_undisturbed (i : Impl) : Undisturbed i i.reconnectTick := by
  simp only [Impl.reconnectTick]
  split
  · exact Undisturbed.quiet rfl rfl rfl rfl fun _ => rfl
  · exact Undisturbed.refl i

theorem register_undisturbed (i : Impl) (t : Topic) : Undisturbed i (i.register t) := by
  simp only [Impl.register]
  split <;> split
  all_goals
    refine Undisturbed.quiet rfl rfl rfl rfl fun n => ?_
    simp [Impl.answers, Impl.deliver, Kit.repliesTo]

theorem unregister_undisturbed (i : Impl) (handle : Nat) : Undisturbed i (i.unregister handle) := by
  simp only [Impl.unregister]
  split
  · exact Undisturbed.refl i
  · split
    · exact Undisturbed.quiet rfl rfl rfl rfl fun _ => rfl
    · split
      · exact Undisturbed.quiet rfl rfl rfl rfl fun _ => rfl
      · exact Undisturbed.quiet rfl rfl rfl rfl fun _ => rfl

theorem onPush_undisturbed (i : Impl) (t : Topic) : Undisturbed i (i.onPush t) := by
  simp only [Impl.onPush]
  split
  · exact Undisturbed.refl i
  · split
    · exact Undisturbed.refl i
    · refine Undisturbed.quiet rfl rfl rfl rfl fun n => ?_
      rw [answers_deliver, List.countP_eq_zero.mpr, Nat.add_zero]
      intro c hc
      obtain ⟨handle, -, rfl⟩ := List.mem_map.mp hc
      simp [Kit.repliesTo]

theorem onEndpoint_undisturbed (i : Impl) (found : Bool) (why : List Char) :
    Undisturbed i (i.onEndpoint found why) := by
  simp only [Impl.onEndpoint]
  split
  · exact Undisturbed.quiet rfl rfl rfl rfl fun _ => rfl
  · split
    · exact Undisturbed.quiet rfl rfl rfl rfl fun _ => rfl
    · have hfailed : Undisturbed i { i with dials := i.dials - 1, dialing := false } :=
        Undisturbed.quiet rfl rfl rfl rfl fun _ => rfl
      simp only [Impl.attemptFailedLocked]
      split
      · exact hfailed.trans (Undisturbed.quiet rfl rfl rfl rfl fun _ => rfl)
      · exact hfailed.trans (failAll_undisturbed _ _)

theorem onAccessEndedClose_undisturbed (i : Impl) (why : List Char) :
    Undisturbed i (i.onAccessEndedClose why) := by
  simp only [Impl.onAccessEndedClose]
  split
  · exact Undisturbed.refl i
  · refine Undisturbed.trans ?_ (failAll_undisturbed _ _)
    exact Undisturbed.quiet rfl rfl rfl rfl fun _ => rfl

theorem close_undisturbed (i : Impl) : Undisturbed i i.close := by
  simp only [Impl.close]
  split
  · exact Undisturbed.refl i
  · refine Undisturbed.trans ?_ (failAll_undisturbed _ _)
    exact Undisturbed.quiet rfl rfl rfl rfl fun _ => rfl

theorem expire_undisturbed (i : Impl) (rid : Nat) : Undisturbed i (i.expire rid) := by
  simp only [Impl.expire]
  split
  · exact Undisturbed.refl i
  · split
    · exact Undisturbed.refl i
    · rename_i p hp
      exact ⟨rfl, fun _ _ _ h => h.settle hp _⟩

theorem expireAll_undisturbed (i : Impl) (rids : List Nat) :
    Undisturbed i (rids.foldl (fun i rid => i.expire rid) i) := by
  induction rids generalizing i with
  | nil => exact Undisturbed.refl i
  | cons rid rids ih => exact (expire_undisturbed i rid).trans (ih (i.expire rid))

end Undisturbed

/-! ## 6. Where a reply goes -/

theorem mem_replyTo {c : Callback} {done : Option Done} {reply : ExecReply}
    (hc : c ∈ replyTo done reply) : ∃ d, c = .reply d reply := by
  cases done with
  | none => simp [replyTo] at hc
  | some d => exact ⟨d, by simpa [replyTo] using hc⟩

/-- When the connection goes, everyone called back hears the same. -/
theorem loseLocked_queue (i : Impl) (reply : ExecReply) :
    ∃ run, (i.loseLocked reply).queue = i.queue ++ run ∧ ∀ c ∈ run, ∃ d, c = .reply d reply := by
  have hleft : ∀ c ∈ i.pending.toList.flatMap (fun e => lostCallback i.reconnect reply e.2),
      ∃ d, c = .reply d reply := by
    intro c hc
    obtain ⟨e, -, hce⟩ := List.mem_flatMap.mp hc
    simp only [lostCallback] at hce
    split at hce
    · simp at hce
    · exact mem_replyTo hce
  have hfailed : ∃ run, ((i.leaveLocked reply).failAllLocked reply).queue = i.queue ++ run ∧
      ∀ c ∈ run, ∃ d, c = .reply d reply := by
    refine ⟨_, List.append_assoc _ _ _, ?_⟩
    intro c hc
    rcases List.mem_append.mp hc with hc | hc
    · exact hleft c hc
    · obtain ⟨e, -, hce⟩ := List.mem_flatMap.mp hc
      exact mem_replyTo hce
  simp only [Impl.loseLocked]
  split
  · exact hfailed
  · split
    · exact ⟨_, rfl, hleft⟩
    · exact hfailed

/-- A reply of the gateway's goes to the request in the table under the id it carries. -/
theorem onReply_delivers {i : Impl} {current : Bool} {rid : Nat} {reply : ExecReply} {d : Done}
    (hd : d ∈ ((i.onReply current rid reply).queue.drop i.queue.length).filterMap
      (repliedWith reply)) :
    ∃ p : Pending, i.pending[rid]? = some p ∧ p.done = some d := by
  obtain ⟨c, hc, hreplied⟩ := List.mem_filterMap.mp hd
  simp only [Impl.onReply] at hc
  split at hc
  · simp at hc
  · split at hc
    · simp at hc
    · rename_i p hp
      split at hc
      · rename_i hmoves
        simp only [Bool.and_eq_true, beq_iff_eq] at hmoves
        split at hc
        · -- whoever is called back here hears that the connection moved
          obtain ⟨run, hqueue, hrun⟩ := loseLocked_queue (i.requeue rid p)
            ⟨.Unavailable, "the connection moved to another host".toList⟩
          have hsame : (i.requeue rid p).queue = i.queue := rfl
          rw [hqueue, hsame, List.drop_left] at hc
          obtain ⟨d', rfl⟩ := hrun c hc
          have hother : (⟨.Unavailable, "the connection moved to another host".toList⟩ : ExecReply) ≠
              reply := by
            intro heq
            have hstatus := (congrArg ExecReply.status heq).trans hmoves.1.1.1
            exact absurd hstatus (by decide)
          rw [repliedWith, if_neg hother] at hreplied
          exact absurd hreplied (by simp)
        · split at hc
          · have hqueue : ((i.requeue rid p).sendLocked rid).queue = i.queue := by
              simp only [Impl.sendLocked]
              split
              · rfl
              · split <;> rfl
            simp [hqueue] at hc
          · have hqueue : (i.requeue rid p).queue = i.queue := rfl
            simp [hqueue] at hc
      · have hqueue : (i.settle rid p reply).queue = i.queue ++ replyTo p.done reply := rfl
        rw [hqueue, List.drop_left] at hc
        refine ⟨p, hp, ?_⟩
        cases hdone : p.done with
        | none => simp [replyTo, hdone] at hc
        | some d' =>
            obtain rfl : c = .reply d' reply := by simpa [replyTo, hdone] using hc
            simpa [repliedWith] using hreplied

/-! ## 7. Steps -/

/-- The books after an event, as `Watched.step` keeps them. -/
def Books (l l' : Line) (e : LineEvent) (requests : List Pending) (asked : Nat)
    (log : List Happening) : Prop :=
  Accounted l'.exec (requests ++ l.adds e) (asked + e.callbacks)
    (log ++ l.hears l' e ++
      (l'.exec.toSend.drop l.exec.toSend.length).map fun f => .encoded f.rid)

section Books

variable {l l' : Line} {e : LineEvent} {requests : List Pending} {asked : Nat}
  {log : List Happening}

theorem books_of_frames (frames : List ClientFrame) (hadds : Accounted l'.exec
      (requests ++ l.adds e) (asked + e.callbacks)
      (log ++ l.hears l' e ++ frames.map fun f => .encoded f.rid))
    (htoSend : l'.exec.toSend = l.exec.toSend ++ frames) :
    Books l l' e requests asked log := by
  rw [Books, htoSend, List.drop_left]
  exact hadds

/-- An event that adds, records and sends nothing. -/
theorem books_of_undisturbed (h : Accounted l.exec requests asked log) (hsame : Undisturbed l.exec l'.exec)
    (hadds : l.adds e = []) (hcallbacks : e.callbacks = 0) (hhears : l.hears l' e = []) :
    Books l l' e requests asked log := by
  apply books_of_frames []
  · rw [hadds, hcallbacks, hhears, List.append_nil, List.append_nil, List.map_nil, List.append_nil]
    exact hsame.2 requests asked log h
  · rw [List.append_nil]
    exact hsame.1

theorem Line.Inv.gen_pos (hl : l.Inv) (hws : l.exec.ws = true) : 0 < l.exec.gen :=
  (hl.earlier _ (hl.made hws)).1

theorem books_of_request (hl : l.Inv) (h : Accounted l.exec requests asked log)
    (frame : ClientFrame) {done : Option Done} {internal : Bool} (timeoutMs now : Nat)
    (hdone : done = none ∨ done = some (.call asked)) (hsilent : internal = true → done = none)
    (hadds : l.adds e = if l.exec.closed then [] else
      [l.exec.newRequest frame done internal timeoutMs])
    (hcallbacks : e.callbacks = done.toList.length) (hhears : ∀ l', l.hears l' e = [])
    (hfew : (requests ++ l.adds e).length < 2 ^ 32 - 1) :
    Books l (l.track now (l.exec.request frame done internal timeoutMs)) e requests asked log := by
  by_cases hclosed : l.exec.closed = true
  · have hrefused : l.exec.request frame done internal timeoutMs =
        l.exec.deliver (replyTo done ⟨.Unavailable, "the connection is closed".toList⟩) := by
      rw [Impl.request, if_pos hclosed]
    rw [if_pos hclosed] at hadds
    apply books_of_frames []
    · rw [hadds, hcallbacks, hhears, List.append_nil, List.append_nil, List.map_nil,
        List.append_nil, Line.track, hrefused]
      exact h.refuse hdone _
    · rw [List.append_nil, Line.track, hrefused]
      rfl
  · rw [if_neg hclosed] at hadds
    rw [Bool.not_eq_true] at hclosed
    rw [hadds, List.length_append, List.length_singleton] at hfew
    obtain ⟨frames, htoSend, haccounted⟩ :=
      h.request hclosed hl.gen_pos frame timeoutMs hdone hsilent hfew
    apply books_of_frames frames _ htoSend
    rw [hadds, hcallbacks, hhears, List.append_nil]
    exact haccounted

theorem books_of_opened (hl : l.Inv) (h : Accounted l.exec requests asked log) (gen now : Nat)
    (hmade : gen ∈ l.sockets)
    (hfew : (requests ++ l.adds (.opened gen now)).length < 2 ^ 32 - 1) :
    Books l (l.onOpen gen now) (.opened gen now) requests asked log := by
  by_cases hignored : gen ≠ l.exec.gen ∨ l.exec.closed = true
  · have hstays : l.onOpen gen now = l := by rw [Line.onOpen, if_pos hignored]
    rw [hstays]
    refine books_of_undisturbed h (Undisturbed.refl _) ?_ rfl rfl
    rw [Line.adds, if_neg]
    rintro ⟨hgen, hclosed, -⟩
    rcases hignored with hother | hends
    · exact hother hgen
    · rw [hclosed] at hends
      exact absurd hends (by simp)
  · have hopens : (l.onOpen gen now).exec = l.exec.onOpen := by
      rw [Line.onOpen, if_neg hignored]
      rfl
    rw [not_or, not_not, Bool.not_eq_true] at hignored
    obtain ⟨rfl, hclosed⟩ := hignored
    have hadds : l.adds (.opened l.exec.gen now) = if l.exec.everOpened = true then
        renewals (l.exec.subs.toList.map Prod.snd) l.exec.rid else [] := by
      simp only [Line.adds, hclosed, true_and]
    obtain ⟨frames, htoSend, haccounted⟩ := h.onOpen hclosed (hl.earlier _ hmade).1 (by
      intro hagain
      rw [hadds, if_pos hagain, List.length_append, renewals_length] at hfew
      exact hfew)
    apply books_of_frames frames
    · rw [hopens, hadds]
      have hnothing : l.hears (l.onOpen l.exec.gen now) (.opened l.exec.gen now) = [] := rfl
      rw [hnothing, List.append_nil]
      exact haccounted
    · rw [hopens]
      exact htoSend

theorem books_of_reply (hl : l.Inv) (h : Accounted l.exec requests asked log) (gen rid : Nat)
    (reply : ExecReply) (now : Nat) :
    Books l (l.onReply gen rid reply now) (.reply gen rid reply now) requests asked log := by
  have hexec := l.onReply_exec gen rid reply now
  obtain ⟨frames, htoSend, haccounted⟩ :=
    h.onReply hl.gen_pos (decide (gen = l.exec.gen)) rid reply
  rw [← hexec] at htoSend haccounted
  apply books_of_frames frames _ htoSend
  have hnone : l.adds (.reply gen rid reply now) = [] := rfl
  rw [hnone, List.append_nil]
  exact haccounted

theorem books_of_lost (h : Accounted l.exec requests asked log) (gen : Nat) (denied : Bool)
    (why : List Char) (now draw : Nat) :
    Books l (l.onLost gen denied why now draw) (.lost gen denied why now draw) requests asked
      log := by
  by_cases hignored : gen ≠ l.exec.gen ∨ l.exec.closed = true
  · have hstays : l.onLost gen denied why now draw = l := by rw [Line.onLost, if_pos hignored]
    rw [hstays]
    exact books_of_undisturbed h (Undisturbed.refl _) rfl rfl (if_pos rfl)
  · generalize hreply : (⟨if denied then .Denied else .Unavailable, why⟩ : ExecReply) = reply
    have hloses : (l.onLost gen denied why now draw).exec = l.exec.loseLocked reply := by
      rw [Line.onLost, if_neg hignored, hreply, Line.loseLocked]
      split
      · rfl
      · split <;> rfl
    have hnew : ¬ (l.onLost gen denied why now draw).exec.gen = l.exec.gen := by
      rw [hloses, (loseLocked_fields l.exec reply).2.2.1]
      exact Nat.succ_ne_self _
    apply books_of_frames []
    · have hhears : l.hears (l.onLost gen denied why now draw) (.lost gen denied why now draw) =
          [.lost] := if_neg hnew
      have hnone : l.adds (.lost gen denied why now draw) = [] := rfl
      rw [hhears, hnone, hloses, List.append_nil, List.map_nil, List.append_nil]
      exact h.lose reply
    · rw [hloses, (loseLocked_subs l.exec reply).2.2.2.1, List.append_nil]

theorem Line.timerTick_undisturbed (l : Line) (now : Nat) : Undisturbed l.exec (l.timerTick now).exec := by
  simp only [Line.timerTick]
  split
  · exact Undisturbed.refl _
  · have hexpired := expireAll_undisturbed l.exec (l.overdue now)
    by_cases hat : l.reconnectAt ≤ now
    · simp only [hat, if_true]
      exact hexpired.trans (reconnectTick_undisturbed _)
    · simp only [hat, if_false]
      exact hexpired

theorem Line.connect_undisturbed (l : Line) (done : Option Nat) :
    Undisturbed l.exec (l.connect done).exec := by
  simp only [Line.connect]
  split
  · exact Undisturbed.refl _
  · split
    · exact Undisturbed.refl _
    · exact Exec.connect_undisturbed l.exec

theorem Line.onEndpoint_exec (l : Line) (answer : Option Errc) (why : List Char) (now draw : Nat) :
    (l.onEndpoint answer why now draw).exec = l.exec.onEndpoint answer.isNone why := by
  simp only [Line.onEndpoint]
  split
  · rfl
  · split
    · rfl
    · split <;> rfl

/-- **The books are kept** by every event. -/
theorem books_of_step (hstep : l.step e = some l') (hl : l.Inv)
    (hadmitted : ∀ frame done timeoutMs now, e = .request frame done timeoutMs now →
      done = none ∨ done = some (.call asked))
    (h : Accounted l.exec requests asked log)
    (hfew : (requests ++ l.adds e).length < 2 ^ 32 - 1) : Books l l' e requests asked log := by
  cases e with
  | connect done =>
      obtain rfl := Option.some.inj hstep
      exact books_of_undisturbed h (l.connect_undisturbed done) rfl rfl rfl
  | request frame done timeoutMs now =>
      obtain rfl := Option.some.inj hstep
      apply books_of_request hl h frame timeoutMs now (hadmitted _ _ _ _ rfl) (by simp) rfl _
        (fun _ => rfl) hfew
      cases done <;> rfl
  | tellGateway frame now =>
      obtain rfl := Option.some.inj hstep
      exact books_of_request hl h frame 0 now (Or.inl rfl) (fun _ => rfl) rfl rfl (fun _ => rfl) hfew
  | register t =>
      obtain rfl := Option.some.inj hstep
      exact books_of_undisturbed h (register_undisturbed l.exec t) rfl rfl rfl
  | unregister handle =>
      obtain rfl := Option.some.inj hstep
      exact books_of_undisturbed h (unregister_undisturbed l.exec handle) rfl rfl rfl
  | endpoint answer why now draw =>
      simp only [Line.step] at hstep
      split at hstep
      · obtain rfl := Option.some.inj hstep
        have hsame := onEndpoint_undisturbed l.exec answer.isNone why
        rw [← l.onEndpoint_exec answer why now draw] at hsame
        exact books_of_undisturbed h hsame rfl rfl rfl
      · simp at hstep
  | opened gen now =>
      simp only [Line.step] at hstep
      split at hstep
      · rename_i hmade
        obtain rfl := Option.some.inj hstep
        exact books_of_opened hl h gen now hmade hfew
      · simp at hstep
  | reply gen rid reply now =>
      simp only [Line.step] at hstep
      split at hstep
      · obtain rfl := Option.some.inj hstep
        exact books_of_reply hl h gen rid reply now
      · simp at hstep
  | push t =>
      obtain rfl := Option.some.inj hstep
      exact books_of_undisturbed h (onPush_undisturbed l.exec t) rfl rfl rfl
  | lost gen denied why now draw =>
      simp only [Line.step] at hstep
      split at hstep
      · obtain rfl := Option.some.inj hstep
        exact books_of_lost h gen denied why now draw
      · simp at hstep
  | accessEnded gen reason =>
      simp only [Line.step] at hstep
      split at hstep
      · obtain rfl := Option.some.inj hstep
        simp only [Line.onAccessEndedClose]
        split
        · exact books_of_undisturbed h (Undisturbed.refl _) rfl rfl rfl
        · exact books_of_undisturbed h (onAccessEndedClose_undisturbed l.exec _) rfl rfl rfl
      · simp at hstep
  | tick now =>
      obtain rfl := Option.some.inj hstep
      exact books_of_undisturbed h (l.timerTick_undisturbed now) rfl rfl rfl
  | close =>
      obtain rfl := Option.some.inj hstep
      simp only [Line.close]
      split
      · exact books_of_undisturbed h (Undisturbed.refl _) rfl rfl rfl
      · exact books_of_undisturbed h (close_undisturbed l.exec) rfl rfl rfl
  | flush =>
      obtain rfl := Option.some.inj hstep
      have hflushed : Accounted l.exec.flushOut requests asked log := by
        refine h.quiet rfl rfl rfl fun n => ?_
        simp [Impl.answers, Impl.flushOut]
      simpa [Books, Line.adds, Line.hears, LineEvent.callbacks, Impl.flushOut] using hflushed

end Books

/-! ## 8. Every run -/

theorem Accounted.initial (reconnect : Bool) (callTimeoutMs : Nat) :
    Accounted { reconnect := reconnect, callTimeoutMs := callTimeoutMs } [] 0 [] := by
  have hphase : ∀ rid, phase rid [] = some .unsent := fun _ => rfl
  constructor <;> simp [Impl.answers, Phased, hphase]

theorem Accounted.distinct {i : Impl} {requests : List Pending} {asked : Nat}
    {log : List Happening} (h : Accounted i requests asked log) :
    (requests.map fun r => r.frame.rid).Nodup := by
  have hrids : (requests.map fun r => r.frame.rid) = (List.range requests.length).map (· + 1) := by
    apply List.ext_getElem
    · simp
    · intro k hk _
      rw [List.length_map] at hk
      simp only [List.getElem_map, List.getElem_range]
      exact h.numbered k _ (List.getElem?_eq_getElem hk)
  rw [hrids]
  exact List.nodup_range.map fun a b hab => Nat.succ.inj hab

/-- What the books say of a request that was sent twice. -/
theorem Accounted.sent_again {i : Impl} {requests : List Pending} {asked : Nat}
    {log : List Happening} (h : Accounted i requests asked log) {r : Pending} (hr : r ∈ requests)
    {before between after : List Happening}
    (hlog : log = before ++ .encoded r.frame.rid :: between ++ .encoded r.frame.rid :: after) :
    (.moved r.frame.rid ∈ between ∨ .lost ∈ between) ∧
      r.frame.kind = .Call ∧ i.reconnect = true := by
  obtain ⟨ph, hph, -⟩ := h.phased r.frame.rid
  have hlawful : phase r.frame.rid
      (before ++ .encoded r.frame.rid :: between ++ .encoded r.frame.rid :: after) ≠ none := by
    rw [← hlog, hph]
    simp
  refine ⟨between_sends hlawful, ?_⟩
  · apply h.twice r hr
    have hcount := count_of_phase hph
    have hmany : 2 ≤ log.count (.encoded r.frame.rid) := by
      rw [hlog]
      simp only [List.count_append, List.count_cons_self]
      omega
    rw [hph]
    cases ph with
    | twice => rfl
    | unsent | out | between =>
        simp only [Phase.sends] at hcount
        omega

/-- The books hold while the request ids last. -/
def Watched.Inv (w : Watched) : Prop :=
  w.line.Inv ∧ (w.requests.length < 2 ^ 32 - 1 →
    Accounted w.line.exec w.requests w.asked w.log ∧
      ∀ (rid : Nat) (d : Done), (rid, d) ∈ w.delivered →
        ∃ r ∈ w.requests, r.frame.rid = rid ∧ r.done = some d)

theorem Watched.Inv.step {w w' : Watched} {e : LineEvent} (hw : w.Inv)
    (hstep : w.step e = some w') : w'.Inv := by
  simp only [Watched.step] at hstep
  split at hstep
  · rename_i hadmitted
    obtain ⟨l, hline, rfl⟩ := Option.map_eq_some_iff.mp hstep
    refine ⟨hw.1.step hline, fun hfew => ?_⟩
    have hbefore : w.requests.length < 2 ^ 32 - 1 := by
      have hmore := hfew
      simp only [List.length_append] at hmore
      omega
    obtain ⟨haccounted, hdelivered⟩ := hw.2 hbefore
    refine ⟨?_, ?_⟩
    · refine books_of_step hline hw.1 ?_ haccounted hfew
      rintro frame done timeoutMs now rfl
      simpa [Watched.admitted] using hadmitted
    · intro rid d hmem
      rcases List.mem_append.mp hmem with hmem | hmem
      · obtain ⟨r, hr, hboth⟩ := hdelivered rid d hmem
        exact ⟨r, List.mem_append_left _ hr, hboth⟩
      · cases e with
        | reply gen rid' reply now =>
            obtain ⟨d', hd', hpair⟩ := List.mem_map.mp hmem
            simp only [Prod.mk.injEq] at hpair
            obtain ⟨rfl, rfl⟩ := hpair
            have hexec : l.exec = w.line.exec.onReply (decide (gen = w.line.exec.gen)) rid' reply := by
              simp only [Line.step] at hline
              split at hline
              · rw [← Option.some.inj hline]
                exact w.line.onReply_exec gen rid' reply now
              · simp at hline
            rw [hexec] at hd'
            obtain ⟨p, hp, hdone⟩ := onReply_delivers hd'
            obtain ⟨hlabel, r, hr, hframe, hsame⟩ := haccounted.booked rid' p hp
            exact ⟨r, List.mem_append_left _ hr, hframe ▸ hlabel, hsame.trans hdone⟩
        | _ => simp [Line.delivers] at hmem
  · simp at hstep

/-- **Every request is answered once.**  In every run that uses fewer than `2 ^ 32 - 1`
    request ids. -/
theorem requests_answered (reconnect : Bool) (callTimeoutMs initialDelayMs maxDelayMs : Nat)
    (events : List LineEvent) (w : Watched)
    (hrun : Run Watched.step Always
      (Watched.initial reconnect callTimeoutMs initialDelayMs maxDelayMs) events w)
    (hfew : w.requests.length < 2 ^ 32 - 1) : w.Answered := by
  have hinv : w.Inv := by
    apply hrun.invariant (fun w e w' _ hstep hw => hw.step hstep)
    refine ⟨Line.Inv.initial _ _ _ _, fun _ => ⟨Accounted.initial reconnect callTimeoutMs, ?_⟩⟩
    intro rid d hmem
    simp [Watched.initial] at hmem
  obtain ⟨haccounted, hdelivered⟩ := hinv.2 hfew
  refine ⟨haccounted.distinct, haccounted.once, ?_, ?_, ?_⟩
  · intro r _
    obtain ⟨ph, hph, -⟩ := haccounted.phased r.frame.rid
    rw [count_of_phase hph]
    cases ph <;> simp [Phase.sends]
  · intro r hr before between after hlog
    exact haccounted.sent_again hr hlog
  · intro rid d hmem r hr hdone
    obtain ⟨r', hr', hrid, hdone'⟩ := hdelivered rid d hmem
    rw [← hrid]
    exact haccounted.single r hr r' hr' (hdone.trans hdone'.symm) (by simp [hdone])

/-- A call is answered Moved, sent again on the next connection and answered there. -/
def movedCall : List LineEvent :=
  [.connect none, .endpoint none [] 0 0, .opened 1 0,
    .request ⟨.Call, 0, ⟨"Match", "m1", "join"⟩⟩ (some (.call 0)) 0 1, .flush,
    .reply 1 1 ⟨.Moved, []⟩ 2, .flush, .tick 3, .endpoint none [] 4 0, .opened 3 5, .flush,
    .reply 3 1 ⟨.Ok, []⟩ 6, .flush]

theorem requests_answered_moved :
    ∃ w, Run Watched.step Always (Watched.initial true 10000 250 5000) movedCall w ∧
      w.requests.length < 2 ^ 32 - 1 ∧ w.Answered := by
  have hrun : Run Watched.step Always (Watched.initial true 10000 250 5000) movedCall _ :=
    Run.cons trivial rfl (Run.cons trivial rfl (Run.cons trivial rfl (Run.cons trivial rfl
      (Run.cons trivial rfl (Run.cons trivial rfl (Run.cons trivial rfl (Run.cons trivial rfl
      (Run.cons trivial rfl (Run.cons trivial rfl (Run.cons trivial rfl (Run.cons trivial rfl
      (Run.cons trivial rfl (Run.nil _)))))))))))))
  exact ⟨_, hrun, by decide, requests_answered _ _ _ _ _ _ hrun (by decide)⟩

end CrowdyCpp.Exec
