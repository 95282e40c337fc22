import Mathlib.Tactic.Ring
import CrowdyCpp.ChunkWriteBack

/-!
# The waits of the write-back, in 64 bits

`attemptWriteBack`, `flush` and `tick` of `src/session/world_session.cpp` with the
arithmetic of the machine: the wait before the next attempt is a shift of a 64-bit
integer by the number of failures, and the time it ends is a sum of two.

While every wait fits, these are the moves of the store over exact integers.  Nothing
keeps a wait from not fitting: the number of attempts and the first wait are options.
-/

namespace CrowdyCpp.Session

open CrowdyCpp Wire TransitionRuns Relation

/-! ## 1. Arithmetic of `std::int64_t` -/

/-- `value << count`: two's complement, and undefined from 64 on. -/
def shiftLeft64 (value count : Int) : Option Int :=
  if 0 ≤ count ∧ count < 64 then some ((value * 2 ^ count.toNat).bmod (2 ^ 64)) else none

/-- `a + b`, undefined where it overflows. -/
def add64 (a b : Int) : Option Int :=
  if -2 ^ 63 ≤ a + b ∧ a + b < 2 ^ 63 then some (a + b) else none

theorem shiftLeft64_of_fits {value : Int} {k : Nat} (hvalue : 0 ≤ value) (hk : k < 64)
    (hfits : value * 2 ^ k < 2 ^ 63) : shiftLeft64 value k = some (value * 2 ^ k) := by
  have hnonneg : 0 ≤ value * 2 ^ k := mul_nonneg hvalue (by positivity)
  have hexact : (value * 2 ^ k).bmod (2 ^ 64) = value * 2 ^ k := by
    apply Int.bmod_eq_of_le
    · norm_num
      omega
    · norm_num
      omega
  rw [shiftLeft64, if_pos (by omega), Int.toNat_natCast, hexact]

/-- A shift that is defined and exact stays below the sign. -/
theorem fits_of_shiftLeft64 {value : Int} {k : Nat}
    (hshift : shiftLeft64 value k = some (value * 2 ^ k)) : k < 64 ∧ value * 2 ^ k < 2 ^ 63 := by
  simp only [shiftLeft64, Int.toNat_natCast] at hshift
  split at hshift
  · rename_i hcount
    have hvalue := Option.some.inj hshift
    have hless : (value * 2 ^ k).bmod (2 ^ 64) < ((2 ^ 64 : Nat) + 1 : Int) / 2 :=
      Int.bmod_lt (by decide)
    rw [hvalue] at hless
    norm_num at hless
    exact ⟨by omega, by omega⟩
  · simp at hshift

theorem add64_of_fits {a b : Int} (ha : 0 ≤ a) (hb : 0 ≤ b) (hfits : a + b < 2 ^ 63) :
    add64 a b = some (a + b) := by
  rw [add64, if_pos ⟨by omega, hfits⟩]

namespace ChunkStore

/-! ## 2. The write-back -/

def postpone64 (s : ChunkStore) (coord : ChunkCoord) (nowMs attempts : Int) : Option ChunkStore := do
  let waitMs ← shiftLeft64 s.options.writeBackBackoffMs (attempts - 1)
  let due ← add64 nowMs waitMs
  some { s.note (.failedWrite coord) with
    writeBackAttempts := Function.update s.writeBackAttempts coord (some attempts)
    writeBackDueAt := Function.update s.writeBackDueAt coord (some due) }

def attemptWriteBack64 (s : ChunkStore) (coord : ChunkCoord) (nowMs : Int) (out : GraphQLOutcome) :
    Option (ChunkStore × WriteBack) :=
  if out.ok then some (s.persist coord, .persisted)
  else
    let attempts := (s.writeBackAttempts coord).getD 0 + 1
    let retryable := writeBackRetryable out
    if retryable && decide (attempts < s.options.writeBackAttempts) then
      (s.postpone64 coord nowMs attempts).map fun t => (t, .retry)
    else
      let failure : ChunkWriteBackFailure :=
        { coord := coord
          reason := if retryable then .exhausted else .refused
          attempts := attempts
          error := out }
      some (s.giveUp failure, .dropped failure)

def tick64 (s : ChunkStore) (nowMs : Int) (visited : List ChunkCoord) (out : GraphQLOutcome) :
    Option ChunkStore :=
  let s := { s with lastTickMs := nowMs }
  if s.hasSource = false ∨ s.options.writeBackIntervalMs ≤ 0 then some s
  else if nowMs - s.lastWriteBackMs < s.options.writeBackIntervalMs then some s
  else
    match visited.find? (s.isDue nowMs) with
    | none => some s
    | some coord =>
        ({ s with lastWriteBackMs := nowMs }.attemptWriteBack64 coord nowMs out).map Prod.fst

/-- What `flush` waits before the next attempt. -/
def backOff64 (s : ChunkStore) (coord : ChunkCoord) : Option ChunkStore :=
  match s.writeBackAttempts coord with
  | some attempts =>
      if 0 < attempts then
        (shiftLeft64 s.options.writeBackBackoffMs (attempts - 1)).map fun waitMs =>
          s.note (.slept waitMs)
      else some s
  | none => some s

/-- One turn of the inner loop of `flush`, on a dirty chunk. -/
def flushTurn64 (s : ChunkStore) (coord : ChunkCoord) (out : GraphQLOutcome) :
    Option (ChunkStore × WriteBack) :=
  (s.backOff64 coord).bind fun s => s.attemptWriteBack64 coord s.lastTickMs out

/-- The inner loop of `flush`, `fuel` turns at most. -/
def flushChunk64 (coord : ChunkCoord) (outcome : Nat → GraphQLOutcome) :
    Nat → Nat → ChunkStore × ChunkFlushResult → Option (ChunkStore × ChunkFlushResult)
  | 0, _, _ => none
  | fuel + 1, i, r =>
      if r.1.isDirty coord = false then some r
      else
        match r.1.flushTurn64 coord (outcome i) with
        | none => none
        | some (s, .persisted) => some (s, { r.2 with persisted := r.2.persisted + 1 })
        | some (s, .dropped failure) => some (s, { r.2 with dropped := r.2.dropped ++ [failure] })
        | some (s, .retry) => flushChunk64 coord outcome fuel (i + 1) (s, r.2)

/-- One turn of the loop of `pruneBeyond`. -/
def pruneTurn64 (s : ChunkStore) (coord : ChunkCoord) (out : GraphQLOutcome) : Option ChunkStore :=
  match s.find coord with
  | none => some s
  | some c =>
      if c.dirty && s.hasSource then
        (s.attemptWriteBack64 coord s.lastTickMs out).map fun r =>
          match r with
          | (t, .retry) => t
          | (t, _) =>
              match t.find coord with
              | none => t
              | some _ => t.evict coord
      else some (s.evict coord)

end ChunkStore

/-- A call that writes no chunk back, a tick, or one turn of the two loops that do. -/
inductive WriteBackEvent where
  | call (c : StoreCall)
  | tick (nowMs : Int) (visited : List ChunkCoord) (out : GraphQLOutcome)
  | flushTurn (coord : ChunkCoord) (out : GraphQLOutcome)
  | pruneTurn (coord : ChunkCoord) (out : GraphQLOutcome)

def StoreCall.writesBack : StoreCall → Bool
  | .pruneBeyond .. => true
  | .tick .. => true
  | .flush .. => true
  | _ => false

namespace ChunkStore

def step64 (s : ChunkStore) : WriteBackEvent → Option ChunkStore
  | .call c => if c.writesBack then none else s.step c
  | .tick nowMs visited out =>
      if visited.Perm s.chunks.keys then s.tick64 nowMs visited out else none
  | .flushTurn coord out =>
      if s.hasSource ∧ s.isDirty coord = true then (s.flushTurn64 coord out).map Prod.fst else none
  | .pruneTurn coord out => s.pruneTurn64 coord out

/-- The wait after failure `k + 1` is a 64-bit integer, and so is the shift it takes. -/
def WaitFits (o : ChunkStoreOptions) (k : Nat) : Prop :=
  k < 64 ∧ o.writeBackBackoffMs * 2 ^ k < 2 ^ 63

/-- The last wait of a write-back fits. -/
def WaitsFit (o : ChunkStoreOptions) : Prop :=
  o.writeBackAttempts ≤ 1 ∨ (o.writeBackAttempts ≤ 65 ∧
    o.writeBackBackoffMs * 2 ^ (o.writeBackAttempts - 2).toNat < 2 ^ 63)

/-- The clock leaves room for every wait that fits. -/
def ClockFits (o : ChunkStoreOptions) (nowMs : Int) : Prop :=
  0 ≤ nowMs ∧ ∀ k : Nat, (k : Int) + 2 ≤ o.writeBackAttempts → WaitFits o k →
    nowMs + o.writeBackBackoffMs * 2 ^ k < 2 ^ 63

/-- The clock a failed write would be due by; `lastTickMs` is 0 or that of a tick. -/
def clockOf (s : ChunkStore) : WriteBackEvent → Int
  | .tick nowMs _ _ => nowMs
  | _ => s.lastTickMs

def ClockOk (s : ChunkStore) (e : WriteBackEvent) : Prop := ClockFits s.options (s.clockOf e)

/-- After `k` failures of a chunk in a row: `flush` sleeps `backoff * 2 ^ (k - 1)` before it
    tries again, and a failure more is due again after `backoff * 2 ^ k`. -/
def WaitsExact (s : ChunkStore) : Prop :=
  ∀ coord k, s.period coord = some (some k) →
    (∀ j, k = j + 1 → s.backOff64 coord =
      some (s.note (.slept (s.options.writeBackBackoffMs * 2 ^ j)))) ∧
    ∀ nowMs out, ClockFits s.options nowMs → out.ok = false → writeBackRetryable out = true →
      (k : Int) + 1 < s.options.writeBackAttempts →
      ∃ t, s.attemptWriteBack64 coord nowMs out = some (t, .retry) ∧
        t.period coord = some (some (k + 1)) ∧
        t.writeBackDueAt coord = some (nowMs + s.options.writeBackBackoffMs * 2 ^ k)

variable {s t : ChunkStore} {coord : ChunkCoord} {o : ChunkStoreOptions} {k : Nat}

theorem WaitsFit.waitFits (ho : WaitsFit o) (hb : 0 ≤ o.writeBackBackoffMs)
    (hk : (k : Int) + 2 ≤ o.writeBackAttempts) : WaitFits o k := by
  rcases ho with hone | ⟨hlimit, hlast⟩
  · omega
  refine ⟨by omega, lt_of_le_of_lt ?_ hlast⟩
  have hpow : (2 : Int) ^ k ≤ 2 ^ (o.writeBackAttempts - 2).toNat :=
    pow_le_pow_right₀ (by decide) (by omega)
  exact mul_le_mul_of_nonneg_left hpow hb

theorem waitsFit_of_all
    (hall : ∀ k : Nat, (k : Int) + 2 ≤ o.writeBackAttempts → WaitFits o k) : WaitsFit o := by
  by_cases hone : o.writeBackAttempts ≤ 1
  · exact Or.inl hone
  · obtain ⟨hcount, hlast⟩ := hall (o.writeBackAttempts - 2).toNat (by omega)
    exact Or.inr ⟨by omega, hlast⟩

theorem clockFits_zero (o : ChunkStoreOptions) : ClockFits o 0 :=
  ⟨Int.le_refl 0, fun k _ hfits => by simpa using hfits.2⟩

/-! ## 3. While the waits fit -/

theorem postpone64_eq (hb : 0 ≤ s.options.writeBackBackoffMs) {nowMs attempts : Int}
    (hattempts : attempts = k + 1) (hfits : WaitFits s.options k) (hnow : 0 ≤ nowMs)
    (hdue : nowMs + s.options.writeBackBackoffMs * 2 ^ k < 2 ^ 63) :
    s.postpone64 coord nowMs attempts = some (s.postpone coord nowMs attempts) := by
  have hcount : attempts - 1 = (k : Int) := by omega
  have hwait := shiftLeft64_of_fits hb hfits.1 hfits.2
  have hsum := add64_of_fits hnow (mul_nonneg hb (by positivity : (0 : Int) ≤ 2 ^ k)) hdue
  simp only [postpone64, postpone, hcount, hwait, hsum, Int.toNat_natCast, Option.bind_eq_bind,
    Option.bind_some]

theorem attemptWriteBack64_eq (hb : 0 ≤ s.options.writeBackBackoffMs)
    (hattempts : (s.writeBackAttempts coord).getD 0 = k) {nowMs : Int}
    (hfits : (k : Int) + 2 ≤ s.options.writeBackAttempts → WaitFits s.options k)
    (hclock : ClockFits s.options nowMs) (out : GraphQLOutcome) :
    s.attemptWriteBack64 coord nowMs out = some (s.attemptWriteBack coord nowMs out) := by
  simp only [attemptWriteBack64, attemptWriteBack]
  split
  · rfl
  split
  · rename_i hretry
    simp only [Bool.and_eq_true, decide_eq_true_eq, hattempts] at hretry
    have hwait := hfits (by omega)
    rw [postpone64_eq hb (by rw [hattempts]) hwait hclock.1 (hclock.2 k (by omega) hwait)]
    rfl
  · rfl

theorem backOff64_eq (hb : 0 ≤ s.options.writeBackBackoffMs)
    (hattempts : (s.writeBackAttempts coord).getD 0 = k)
    (hfits : ∀ j, k = j + 1 → WaitFits s.options j) :
    s.backOff64 coord = some (s.backOff coord) := by
  simp only [backOff64, backOff]
  cases hsome : s.writeBackAttempts coord with
  | none => rfl
  | some attempts =>
      rw [hsome, Option.getD_some] at hattempts
      subst hattempts
      dsimp only
      split
      · rename_i hpos
        obtain ⟨j, rfl⟩ : ∃ j, k = j + 1 := ⟨k - 1, by omega⟩
        have hcount : ((j + 1 : Nat) : Int) - 1 = j := by omega
        have hwait := hfits j rfl
        rw [hcount, shiftLeft64_of_fits hb hwait.1 hwait.2, Int.toNat_natCast]
        rfl
      · rfl

/-- What holds of a store whose waits fit. -/
structure Fitting (s : ChunkStore) : Prop where
  books : s.Books
  backoff : 0 ≤ s.options.writeBackBackoffMs
  fits : 0 < s.options.writeBackIntervalMs → WaitsFit s.options

theorem Fitting.attempts (hs : s.Fitting) (hdirty : s.isDirty coord = true) :
    ∃ k : Nat, (s.writeBackAttempts coord).getD 0 = k ∧
      ((k : Int) + 2 ≤ s.options.writeBackAttempts → WaitFits s.options k) ∧
      ∀ j, k = j + 1 → WaitFits s.options j := by
  obtain ⟨k, hless, hattempts, -⟩ := hs.books.dirty hdirty
  have hwaits := hs.fits (hs.books.enabled coord hdirty)
  refine ⟨k, hattempts, fun hk => hwaits.waitFits hs.backoff hk, fun j hj => ?_⟩
  apply hwaits.waitFits hs.backoff
  rw [attemptLimit] at hless
  omega

theorem Fitting.tick64_eq (hs : s.Fitting) {nowMs : Int} (hclock : ClockFits s.options nowMs)
    (visited : List ChunkCoord) (out : GraphQLOutcome) :
    s.tick64 nowMs visited out = some (s.tick nowMs visited out) := by
  simp only [tick64, tick]
  split
  · rfl
  split
  · rfl
  cases hdue : visited.find? ({ s with lastTickMs := nowMs }.isDue nowMs) with
  | none => rfl
  | some coord =>
    have hdirty : s.isDirty coord = true := by
      have hfound := List.find?_some hdue
      simp only [isDue, Bool.and_eq_true] at hfound
      exact hfound.1
    obtain ⟨k, hattempts, hfits, -⟩ := hs.attempts hdirty
    have hexact := attemptWriteBack64_eq
      (s := { s with lastTickMs := nowMs, lastWriteBackMs := nowMs }) hs.backoff hattempts hfits
      hclock out
    dsimp only
    rw [hexact]
    rfl

theorem Fitting.flushTurn64_eq (hs : s.Fitting) (hdirty : s.isDirty coord = true)
    (hclock : ClockFits s.options s.lastTickMs) (out : GraphQLOutcome) :
    s.flushTurn64 coord out =
      some ((s.backOff coord).attemptWriteBack coord s.lastTickMs out) := by
  obtain ⟨k, hattempts, hfits, hbefore⟩ := hs.attempts hdirty
  have hback := backOff_beside s coord
  have htime : (s.backOff coord).lastTickMs = s.lastTickMs := by
    simp only [backOff]
    split
    · split <;> rfl
    · rfl
  have hclock' : ClockFits (s.backOff coord).options s.lastTickMs := by
    rw [hback.options]
    exact hclock
  have hexact := attemptWriteBack64_eq (by rw [hback.options]; exact hs.backoff)
    (by rw [hback.writeBackAttempts]; exact hattempts) (by rw [hback.options]; exact hfits)
    hclock' out
  rw [flushTurn64, backOff64_eq hs.backoff hattempts hbefore, Option.bind_some, htime, hexact]

theorem Fitting.pruneTurn64_eq (hs : s.Fitting) (hclock : ClockFits s.options s.lastTickMs)
    (out : GraphQLOutcome) :
    s.pruneTurn64 coord out = some (pruneChunk (fun _ => out) (s, 0) coord).1 := by
  simp only [pruneTurn64, pruneChunk]
  cases hfind : s.find coord with
  | none => rfl
  | some c =>
      dsimp only
      split
      · rename_i hwrite
        simp only [Bool.and_eq_true] at hwrite
        have hdirty : s.isDirty coord = true := by rw [isDirty_of_find hfind, hwrite.1]
        obtain ⟨k, hattempts, hfits, -⟩ := hs.attempts hdirty
        rw [attemptWriteBack64_eq hs.backoff hattempts hfits hclock out, Option.map_some]
        generalize s.attemptWriteBack coord s.lastTickMs out = attempted
        obtain ⟨t, done⟩ := attempted
        cases done with
        | retry => rfl
        | persisted =>
            dsimp only
            cases t.find coord <;> rfl
        | dropped failure =>
            dsimp only
            cases t.find coord <;> rfl
      · rfl

/-! ## 4. Runs -/

theorem options_of_move {ok : ChunkStore → Supply → Prop} (hmove : StoreMove ok s t) :
    t.options = s.options := by
  cases hmove with
  | edit coord p hp voxelType state own =>
      simp only [applyLocal]
      split
      · exact (setDirty_frame _ coord true).1
      · rfl
  | load chunk hok nowMs => rfl
  | generate coord voxels hok => exact (setDirty_frame _ coord _).1
  | mark coord =>
      simp only [markDirty]
      split
      · rfl
      split
      · exact (setDirty_frame s coord true).1
      · rfl
  | persist coord hdirty => exact (setDirty_frame _ coord false).1
  | postpone coord hdirty nowMs attempts hnext hless => rfl
  | giveUp failure hdirty => exact (setDirty_frame _ failure.coord false).1
  | evict coord hfree =>
      simp only [evict, forgetWriteBack]
      split
      · exact (setDirty_frame s coord false).1
      · rfl
  | beside hbeside => exact hbeside.options

theorem Fitting.moves (hs : s.Fitting) (hmoves : ReflTransGen (StoreMove fun _ _ => True) s t) :
    t.Fitting ∧ t.options = s.options := by
  induction hmoves with
  | refl => exact ⟨hs, rfl⟩
  | tail _ hmove ih =>
      obtain ⟨hmid, hoptions⟩ := ih
      have hkept := options_of_move hmove
      refine ⟨⟨hmid.books.move hmove, ?_, ?_⟩, hkept.trans hoptions⟩
      · rw [hkept]
        exact hmid.backoff
      · rw [hkept]
        exact hmid.fits

/-- Every event is a sequence of moves of the store over exact integers. -/
theorem Fitting.step64_moves (hs : s.Fitting) {e : WriteBackEvent} (hclock : s.ClockOk e)
    (hstep : s.step64 e = some t) : ReflTransGen (StoreMove fun _ _ => True) s t := by
  cases e with
  | call c =>
      simp only [step64] at hstep
      split at hstep
      · simp at hstep
      · exact step_moves (callOk_of_all (fun _ _ => trivial) s c) hstep
  | tick nowMs visited out =>
      simp only [step64] at hstep
      split at hstep
      · have hnow : ClockFits s.options nowMs := hclock
        rw [hs.tick64_eq hnow] at hstep
        obtain rfl := Option.some.inj hstep
        exact (tick_upkeep s nowMs visited out).lift id fun a b hup => hup.move
      · simp at hstep
  | flushTurn coord out =>
      simp only [step64] at hstep
      split at hstep
      · rename_i hdirty
        rw [hs.flushTurn64_eq hdirty.2 hclock] at hstep
        obtain rfl := Option.some.inj hstep
        have hback := backOff_beside s coord
        have hdirty' : (s.backOff coord).isDirty coord = true := by
          rw [hback.isDirty]
          exact hdirty.2
        exact (ReflTransGen.single (.beside hback)).tail
          (attemptWriteBack_upkeep hdirty' s.lastTickMs out).1.move
      · simp at hstep
  | pruneTurn coord out =>
      rw [step64, hs.pruneTurn64_eq hclock] at hstep
      obtain rfl := Option.some.inj hstep
      exact pruneChunk_moves _ (s, 0) coord

theorem Fitting.run (hs : s.Fitting) {es : List WriteBackEvent} (hrun : Run step64 ClockOk s es t) :
    t.Fitting ∧ t.options = s.options := by
  have hkeep : ∀ u e v, ClockOk u e → step64 u e = some v →
      u.Fitting ∧ u.options = s.options → v.Fitting ∧ v.options = s.options := by
    intro u e v hclock hstep hu
    obtain ⟨hv, hoptions⟩ := hu.1.moves (hu.1.step64_moves hclock hstep)
    exact ⟨hv, hoptions.trans hu.2⟩
  exact hrun.invariant hkeep ⟨hs, rfl⟩

theorem books_construct (o : ChunkStoreOptions) (hasSource : Bool) : (construct o hasSource).Books :=
  run_books (Run.nil _)

theorem Books.of_period (hs : s.Books) (hperiod : s.period coord = some (some k)) :
    s.isDirty coord = true ∧ (s.writeBackAttempts coord).getD 0 = k := by
  cases hdirty : s.isDirty coord with
  | true =>
      obtain ⟨k', -, hattempts, hperiod'⟩ := hs.dirty hdirty
      have hsame := hperiod.symm.trans hperiod'
      simp only [Option.some.injEq] at hsame
      exact ⟨rfl, hsame ▸ hattempts⟩
  | false =>
      have hclosed : s.period coord = some none := congrArg Account.period (hs.clean hdirty)
      simp [hclosed] at hperiod

theorem Books.period_of_dirty (hs : s.Books) (hdirty : s.isDirty coord = true)
    (hattempts : (s.writeBackAttempts coord).getD 0 = k) : s.period coord = some (some k) := by
  obtain ⟨k', -, hattempts', hperiod⟩ := hs.dirty hdirty
  have hsame : k = k' := by omega
  rw [hperiod, hsame]

/-- A failed write that is tried again. -/
theorem attemptWriteBack_retry (hattempts : (s.writeBackAttempts coord).getD 0 = k) {nowMs : Int}
    {out : GraphQLOutcome} (hfailed : out.ok = false) (hretryable : writeBackRetryable out = true)
    (hless : (k : Int) + 1 < s.options.writeBackAttempts) :
    s.attemptWriteBack coord nowMs out = (s.postpone coord nowMs (k + 1), .retry) := by
  simp [attemptWriteBack, hfailed, hretryable, hattempts, hless]

theorem Fitting.exact (hs : s.Fitting) : s.WaitsExact := by
  intro coord k hperiod
  obtain ⟨hdirty, hattempts⟩ := hs.books.of_period hperiod
  obtain ⟨k', hattempts', hfits, hbefore⟩ := hs.attempts hdirty
  obtain rfl : k' = k := by omega
  constructor
  · rintro j rfl
    rw [backOff64_eq hs.backoff hattempts hbefore]
    cases hsome : s.writeBackAttempts coord with
    | none =>
        rw [hsome, Option.getD_none] at hattempts
        omega
    | some attempts =>
        have hcount : attempts = (j : Int) + 1 := by simpa [hsome] using hattempts
        have hpos : (0 : Int) < j + 1 := by omega
        simp [backOff, hsome, hcount, hpos]
  · intro nowMs out hclock hfailed hretryable hless
    refine ⟨s.postpone coord nowMs (k' + 1), ?_, ?_, ?_⟩
    · rw [attemptWriteBack64_eq hs.backoff hattempts hfits hclock out,
        attemptWriteBack_retry hattempts hfailed hretryable hless]
    · have hmove : StoreMove (fun _ _ => True) s (s.postpone coord nowMs (k' + 1)) :=
        .postpone s coord hdirty nowMs _ (by rw [hattempts]) hless
      refine (hs.books.move hmove).period_of_dirty (k := k' + 1) ?_ (by simp [postpone])
      exact (isDirty_of_same rfl).trans hdirty
    · simp [postpone]

/-- A turn keeps the source, so the next one can follow. -/
theorem hasSource_flushTurn64 {out : GraphQLOutcome} {done : WriteBack}
    (hturn : s.flushTurn64 coord out = some (t, done)) : t.hasSource = s.hasSource := by
  obtain ⟨u, hslept, hattempt⟩ := Option.bind_eq_some_iff.mp hturn
  have hu : u.hasSource = s.hasSource := by
    simp only [backOff64] at hslept
    split at hslept
    · split at hslept
      · obtain ⟨waitMs, -, hnote⟩ := Option.map_eq_some_iff.mp hslept
        rw [← hnote, note]
      · rw [← Option.some.inj hslept]
    · rw [← Option.some.inj hslept]
  rw [← hu]
  simp only [attemptWriteBack64] at hattempt
  split at hattempt
  · obtain ⟨rfl, -⟩ := Prod.mk.inj (Option.some.inj hattempt)
    exact (setDirty_frame _ coord false).2.1
  split at hattempt
  · obtain ⟨v, hpost, hpair⟩ := Option.map_eq_some_iff.mp hattempt
    obtain ⟨rfl, -⟩ := Prod.mk.inj hpair
    simp only [postpone64, Option.bind_eq_bind] at hpost
    obtain ⟨waitMs, -, hrest⟩ := Option.bind_eq_some_iff.mp hpost
    obtain ⟨due, -, hstate⟩ := Option.bind_eq_some_iff.mp hrest
    rw [← Option.some.inj hstate, note]
  · obtain ⟨rfl, -⟩ := Prod.mk.inj (Option.some.inj hattempt)
    exact (setDirty_frame _ coord false).2.1

/-- The loop of `flush` is a run of its turns. -/
theorem flushChunk64_turns (outcome : Nat → GraphQLOutcome) {fuel i : Nat}
    {r r' : ChunkStore × ChunkFlushResult} (hsource : r.1.hasSource = true)
    (hflush : flushChunk64 coord outcome fuel i r = some r') :
    ∃ es, Run step64 Always r.1 es r'.1 := by
  induction fuel generalizing i r with
  | zero => simp [flushChunk64] at hflush
  | succ fuel ih =>
      simp only [flushChunk64] at hflush
      split at hflush
      · obtain rfl := Option.some.inj hflush
        exact ⟨[], Run.nil _⟩
      rename_i hdirty
      cases hturn : r.1.flushTurn64 coord (outcome i) with
      | none => simp [hturn] at hflush
      | some turned =>
          obtain ⟨t, done⟩ := turned
          have hstep : r.1.step64 (.flushTurn coord (outcome i)) = some t := by
            rw [step64, if_pos ⟨hsource, by simpa using hdirty⟩, hturn, Option.map_some]
          rw [hturn] at hflush
          cases done with
          | persisted =>
              obtain rfl := Option.some.inj hflush
              exact ⟨[_], Run.cons trivial hstep (Run.nil t)⟩
          | dropped failure =>
              obtain rfl := Option.some.inj hflush
              exact ⟨[_], Run.cons trivial hstep (Run.nil t)⟩
          | retry =>
              have hkept := (hasSource_flushTurn64 hturn).trans hsource
              obtain ⟨es, hrun⟩ := ih (r := (t, r.2)) hkept hflush
              exact ⟨_ :: es, Run.cons trivial hstep hrun⟩

/-! ## 5. A flush that fails to the end -/

/-- A chunk is generated, and `k` turns of a flush fail to write it. -/
def failingFlush (k : Nat) : List WriteBackEvent :=
  .call (.insertGenerated someChunk fun _ => 0) :: List.replicate k (.flushTurn someChunk timedOut)

/-- A store after `k` failures, at clock 0. -/
structure Failing (o : ChunkStoreOptions) (k : Nat) (s : ChunkStore) : Prop where
  books : s.Books
  options : s.options = o
  source : s.hasSource = true
  clock : s.lastTickMs = 0
  dirty : s.isDirty someChunk = true
  attempts : (s.writeBackAttempts someChunk).getD 0 = k

theorem failing_generated (hon : 0 < o.writeBackIntervalMs) :
    Failing o 0 ((construct o true).insertGenerated someChunk fun _ => 0) := by
  have hmove : StoreMove (fun _ _ => True) (construct o true)
      ((construct o true).insertGenerated someChunk fun _ => 0) := .generate _ _ _ trivial
  have hframe := setDirty_frame ((construct o true).put someChunk
    { (construct o true).opened someChunk with voxels := fun _ => 0, storedOnServer := false })
    someChunk (decide (0 < o.writeBackIntervalMs))
  refine ⟨(books_construct o true).move hmove, options_of_move hmove, hframe.2.1, ?_, ?_, ?_⟩
  · simp only [insertGenerated, setDirty]
    split
    · rfl
    · split <;> rfl
  · rw [isDirty_of_find (find_insertGenerated_self _ _ _)]
    exact decide_eq_true hon
  · exact congrArg (fun m => (m someChunk).getD 0) hframe.2.2.1

/-- A turn whose waits fit counts a failure more. -/
theorem Failing.turn (hs : Failing o k s) (hb : 0 ≤ o.writeBackBackoffMs)
    (hfits : ∀ j ≤ k, WaitFits o j) (hless : (k : Int) + 1 < o.writeBackAttempts) :
    ∃ t, s.step64 (.flushTurn someChunk timedOut) = some t ∧ Failing o (k + 1) t := by
  have hback := backOff_beside s someChunk
  have htime : (s.backOff someChunk).lastTickMs = 0 := by
    rw [← hs.clock]
    simp only [backOff]
    split
    · split <;> rfl
    · rfl
  have hoptions : (s.backOff someChunk).options = o := hback.options.trans hs.options
  have hattempts : ((s.backOff someChunk).writeBackAttempts someChunk).getD 0 = k := by
    rw [hback.writeBackAttempts]
    exact hs.attempts
  have hdirty : (s.backOff someChunk).isDirty someChunk = true := by
    rw [hback.isDirty]
    exact hs.dirty
  have hslept : s.backOff64 someChunk = some (s.backOff someChunk) := by
    refine backOff64_eq (by rw [hs.options]; exact hb) hs.attempts fun j hj => ?_
    rw [hs.options]
    exact hfits j (by omega)
  have hexact : (s.backOff someChunk).attemptWriteBack64 someChunk 0 timedOut =
      some ((s.backOff someChunk).postpone someChunk 0 (k + 1), .retry) := by
    rw [attemptWriteBack64_eq (by rw [hoptions]; exact hb) hattempts
        (by rw [hoptions]; exact fun _ => hfits k (Nat.le_refl k))
        (by rw [hoptions]; exact clockFits_zero o) timedOut,
      attemptWriteBack_retry hattempts rfl rfl (by rw [hoptions]; exact hless)]
  refine ⟨(s.backOff someChunk).postpone someChunk 0 (k + 1), ?_, ?_⟩
  · rw [step64, if_pos ⟨hs.source, hs.dirty⟩, flushTurn64, hslept, Option.bind_some, htime, hexact]
    rfl
  · have hmove : StoreMove (fun _ _ => True) (s.backOff someChunk)
        ((s.backOff someChunk).postpone someChunk 0 (k + 1)) :=
      .postpone _ _ hdirty 0 _ (by rw [hattempts]) (by rw [hoptions]; exact hless)
    refine ⟨(hs.books.beside hback).move hmove, hoptions, hback.hasSource.trans hs.source, htime,
      (isDirty_of_same rfl).trans hdirty, ?_⟩
    simp [postpone]

theorem failing_run (hb : 0 ≤ o.writeBackBackoffMs) (hon : 0 < o.writeBackIntervalMs)
    (hfits : ∀ j < k, WaitFits o j) (hless : k = 0 ∨ (k : Int) < o.writeBackAttempts) :
    ∃ s, Run step64 ClockOk (construct o true) (failingFlush k) s ∧ Failing o k s := by
  induction k with
  | zero =>
      refine ⟨_, Run.cons ?_ rfl (Run.nil _), failing_generated hon⟩
      exact clockFits_zero o
  | succ k ih =>
      obtain ⟨s, hrun, hs⟩ := ih (fun j hj => hfits j (by omega)) (by omega)
      obtain ⟨t, hturn, ht⟩ := hs.turn hb (fun j hj => hfits j (by omega)) (by omega)
      have hclock : s.ClockOk (.flushTurn someChunk timedOut) := by
        have hzero : s.clockOf (.flushTurn someChunk timedOut) = 0 := hs.clock
        rw [ClockOk, hzero, hs.options]
        exact clockFits_zero o
      refine ⟨t, ?_, ht⟩
      have hboth := hrun.append (Run.cons hclock hturn (Run.nil t))
      simpa [failingFlush, List.replicate_succ', List.append_assoc] using hboth

/-- In a store that is exact in every run, the wait after each failure fits. -/
theorem waitFits_of_exact (hb : 0 ≤ o.writeBackBackoffMs) (hon : 0 < o.writeBackIntervalMs)
    (hexact : ∀ es s, Run step64 ClockOk (construct o true) es s → s.WaitsExact)
    (hk : (k : Int) + 2 ≤ o.writeBackAttempts) : WaitFits o k := by
  induction k using Nat.strong_induction_on with
  | h k ih =>
      obtain ⟨s, hrun, hs⟩ := failing_run hb hon (fun j hj => ih j hj (by omega)) (by omega)
      have hperiod := hs.books.period_of_dirty hs.dirty hs.attempts
      obtain ⟨t, hattempt, -, hdue⟩ := (hexact _ s hrun someChunk k hperiod).2 0 timedOut
        (by rw [hs.options]; exact clockFits_zero o) rfl rfl (by rw [hs.options]; omega)
      -- the machine has posted a time, so its shift was defined and exact
      simp only [attemptWriteBack64, hs.attempts, hs.options] at hattempt
      rw [if_neg (by decide), if_pos (by simp [show writeBackRetryable timedOut = true from rfl]; omega)]
        at hattempt
      obtain ⟨u, hpost, hpair⟩ := Option.map_eq_some_iff.mp hattempt
      obtain rfl : u = t := congrArg Prod.fst hpair
      simp only [postpone64, hs.options, Option.bind_eq_bind] at hpost
      obtain ⟨waitMs, hshift, hrest⟩ := Option.bind_eq_some_iff.mp hpost
      obtain ⟨due, hsum, hstate⟩ := Option.bind_eq_some_iff.mp hrest
      have hsame : due = 0 + waitMs := by
        simp only [add64] at hsum
        split at hsum
        · exact (Option.some.inj hsum).symm
        · simp at hsum
      have hposted : u.writeBackDueAt someChunk = some due := by
        rw [← Option.some.inj hstate]
        simp
      have hwait : waitMs = o.writeBackBackoffMs * 2 ^ k := by
        have hboth := Option.some.inj (hposted.symm.trans hdue)
        rw [hs.options] at hboth
        omega
      have hcount : (k : Int) + 1 - 1 = k := by omega
      rw [hcount, hwait] at hshift
      exact fits_of_shiftLeft64 hshift

/-! ## 6. When the waits are exact -/

/-- **The waits of the write-back.**  For all options: in every run, whatever fails, the
    waits of `tick` and of `flush` double exactly, without an undefined shift or sum, if
    and only if the wait before the last attempt still fits in 64 bits. -/
theorem waits_exact_iff (o : ChunkStoreOptions) (hb : 0 ≤ o.writeBackBackoffMs) :
    (∀ hasSource es s, Run step64 ClockOk (construct o hasSource) es s → s.WaitsExact) ↔
      (0 < o.writeBackIntervalMs → WaitsFit o) := by
  constructor
  · intro hexact hon
    exact waitsFit_of_all fun k hk => waitFits_of_exact hb hon (hexact true) hk
  · intro hfits hasSource es s hrun
    have hstart : (construct o hasSource).Fitting := ⟨books_construct o hasSource, hb, hfits⟩
    exact (hstart.run hrun).1.exact

theorem waits_exact_of_default :
    ((construct {} true).insertGenerated someChunk fun _ => 0).WaitsExact :=
  (waits_exact_iff {} (by decide)).mpr (fun _ => Or.inr (by decide)) true
    [.call (.insertGenerated someChunk fun _ => 0)] _
    (Run.cons (clockFits_zero _) rfl (Run.nil _))

/-- With 0.7 s and a hundred attempts, the waits go past 64 bits. -/
theorem waits_of_hundred_attempts :
    ¬ ∀ (o : ChunkStoreOptions), 0 ≤ o.writeBackBackoffMs →
      ∀ hasSource es s, Run step64 ClockOk (construct o hasSource) es s → s.WaitsExact := by
  intro hclaim
  have hexact := hclaim { writeBackAttempts := 100 } (by decide) true
  have hfits : WaitFits { writeBackAttempts := 100 } 70 :=
    waitFits_of_exact (by decide) (by decide) hexact (by decide)
  exact absurd hfits.1 (by decide)

end ChunkStore

end CrowdyCpp.Session
