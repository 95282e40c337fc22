import CrowdyCpp.ExecLine

/-!
# The tables of handlers

`subs_` and `handles_` of `ExecConnection::Impl`: who handles the pushes of a topic, and which
topic a handle is of.  Only the critical sections of `subscribe` and `dropHandler` touch them,
and they keep the two in step; everything else the connection does, from a dial to a close,
leaves them alone.
-/

namespace CrowdyCpp.Exec

open Domains Std MapSweep TransitionRuns

/-! ## 1. What leaves the tables alone -/

structure Tables where
  subs : ExtTreeMap String Sub
  handles : ExtTreeMap Nat String
  nextHandle : Nat

def Impl.tables (i : Impl) : Tables :=
  { subs := i.subs, handles := i.handles, nextHandle := i.nextHandle }

section Tables

variable (i : Impl)

theorem tables_sendLocked (rid : Nat) : (i.sendLocked rid).tables = i.tables := by
  simp only [Impl.sendLocked]
  split
  · rfl
  · split <;> rfl

theorem tables_sendAll (rids : List Nat) : (i.sendAll rids).tables = i.tables := by
  induction rids generalizing i with
  | nil => rfl
  | cons rid rids ih => exact (ih (i.sendLocked rid)).trans (tables_sendLocked i rid)

theorem tables_renewAll : i.renewAll.tables = i.tables := by
  simp only [Impl.renewAll]
  split
  · rw [foldl_renew_fields]
    rfl
  · rfl

theorem tables_request (frame : ClientFrame) (done : Option Done) (internal : Bool)
    (timeoutMs : Nat) : (i.request frame done internal timeoutMs).tables = i.tables := by
  simp only [Impl.request]
  split
  · rfl
  · split
    · rw [tables_sendLocked]
      rfl
    · split <;> rfl

theorem tables_connect : i.connect.tables = i.tables := by
  simp only [Impl.connect]
  split
  · rfl
  · split <;> rfl

theorem tables_onEndpoint (found : Bool) (why : List Char) :
    (i.onEndpoint found why).tables = i.tables := by
  simp only [Impl.onEndpoint]
  split
  · rfl
  · split
    · rfl
    · simp only [Impl.attemptFailedLocked]
      split <;> rfl

theorem tables_onOpen : i.onOpen.tables = i.tables := by
  simp only [Impl.onOpen]
  split
  · rfl
  · rw [tables_sendAll, ← tables_renewAll i]
    rfl

theorem tables_loseLocked (reply : ExecReply) : (i.loseLocked reply).tables = i.tables := by
  simp only [Impl.loseLocked]
  split
  · rfl
  · split <;> rfl

theorem tables_onReply (current : Bool) (rid : Nat) (reply : ExecReply) :
    (i.onReply current rid reply).tables = i.tables := by
  simp only [Impl.onReply]
  split
  · rfl
  · split
    · rfl
    · split
      · split
        · rw [tables_loseLocked]
          rfl
        · split
          · rw [tables_sendLocked]
            rfl
          · rfl
      · rfl

theorem tables_expire (rid : Nat) : (i.expire rid).tables = i.tables := by
  simp only [Impl.expire]
  split
  · rfl
  · split <;> rfl

theorem tables_expireAll (rids : List Nat) :
    (rids.foldl (fun i rid => i.expire rid) i).tables = i.tables := by
  induction rids generalizing i with
  | nil => rfl
  | cons rid rids ih => exact (ih (i.expire rid)).trans (tables_expire i rid)

theorem tables_onPush (t : Topic) : (i.onPush t).tables = i.tables := by
  simp only [Impl.onPush]
  split
  · rfl
  · split <;> rfl

theorem tables_onAccessEndedClose (why : List Char) :
    (i.onAccessEndedClose why).tables = i.tables := by
  simp only [Impl.onAccessEndedClose]
  split <;> rfl

theorem tables_close : i.close.tables = i.tables := by
  simp only [Impl.close]
  split <;> rfl

theorem tables_reconnectTick : i.reconnectTick.tables = i.tables := by
  simp only [Impl.reconnectTick]
  split <;> rfl

end Tables

/-- **What a step does to the tables.** -/
theorem Line.step_tables {l l' : Line} {e : LineEvent} (hstep : l.step e = some l') :
    l'.exec.tables = l.exec.tables ∨ (∃ t, e = .register t ∧ l'.exec = l.exec.register t) ∨
      ∃ h, e = .unregister h ∧ l'.exec = l.exec.unregister h := by
  cases e with
  | register t =>
      obtain rfl := Option.some.inj hstep
      exact Or.inr (Or.inl ⟨t, rfl, rfl⟩)
  | unregister handle =>
      obtain rfl := Option.some.inj hstep
      exact Or.inr (Or.inr ⟨handle, rfl, rfl⟩)
  | connect done =>
      obtain rfl := Option.some.inj hstep
      apply Or.inl
      simp only [Line.connect]
      split
      · rfl
      · split
        · rfl
        · exact tables_connect l.exec
  | request frame done timeoutMs now =>
      obtain rfl := Option.some.inj hstep
      exact Or.inl (tables_request l.exec frame done false timeoutMs)
  | tellGateway frame now =>
      obtain rfl := Option.some.inj hstep
      exact Or.inl (tables_request l.exec frame none true 0)
  | endpoint answer why now draw =>
      simp only [Line.step] at hstep
      split at hstep
      · obtain rfl := Option.some.inj hstep
        apply Or.inl
        simp only [Line.onEndpoint]
        split
        · exact tables_onEndpoint l.exec _ why
        · split
          · exact tables_onEndpoint l.exec _ why
          · split <;> exact tables_onEndpoint l.exec _ why
      · simp at hstep
  | opened gen now =>
      simp only [Line.step] at hstep
      split at hstep
      · obtain rfl := Option.some.inj hstep
        apply Or.inl
        simp only [Line.onOpen]
        split
        · rfl
        · exact tables_onOpen l.exec
      · simp at hstep
  | reply gen rid reply now =>
      simp only [Line.step] at hstep
      split at hstep
      · obtain rfl := Option.some.inj hstep
        apply Or.inl
        rw [Line.onReply_exec]
        exact tables_onReply l.exec _ rid reply
      · simp at hstep
  | push t =>
      obtain rfl := Option.some.inj hstep
      exact Or.inl (tables_onPush l.exec t)
  | lost gen denied why now draw =>
      simp only [Line.step] at hstep
      split at hstep
      · obtain rfl := Option.some.inj hstep
        apply Or.inl
        simp only [Line.onLost]
        split
        · rfl
        · rw [Line.loseLocked_exec]
          exact tables_loseLocked l.exec _
      · simp at hstep
  | accessEnded gen reason =>
      simp only [Line.step] at hstep
      split at hstep
      · obtain rfl := Option.some.inj hstep
        apply Or.inl
        simp only [Line.onAccessEndedClose]
        split
        · rfl
        · exact tables_onAccessEndedClose l.exec _
      · simp at hstep
  | tick now =>
      obtain rfl := Option.some.inj hstep
      apply Or.inl
      simp only [Line.timerTick]
      split
      · rfl
      · have hexpired := tables_expireAll l.exec (l.overdue now)
        split
        · exact (tables_reconnectTick _).trans hexpired
        · exact hexpired
  | close =>
      obtain rfl := Option.some.inj hstep
      apply Or.inl
      simp only [Line.close]
      split
      · rfl
      · exact tables_close l.exec
  | flush =>
      obtain rfl := Option.some.inj hstep
      exact Or.inl rfl

/-! ## 2. The tables in step -/

structure Rostered (t : Tables) : Prop where
  handled : ∀ h k, t.handles[h]? = some k ↔ ∃ sub : Sub, t.subs[k]? = some sub ∧ h ∈ sub.handlers
  distinct : ∀ (k : String) (sub : Sub), t.subs[k]? = some sub → sub.handlers.Nodup
  counted : ∀ h k, t.handles[h]? = some k → h ≤ t.nextHandle

def Impl.handlersAt (k : String) (i : Impl) : List Nat :=
  match i.subs[k]? with
  | some sub => sub.handlers
  | none => []

theorem mem_handlersAt {i : Impl} {h : Nat} {k : String} (hi : Rostered i.tables) :
    h ∈ i.handlersAt k ↔ i.handles[h]? = some k := by
  refine Iff.trans ?_ (hi.handled h k).symm
  change h ∈ i.handlersAt k ↔ ∃ sub, i.subs[k]? = some sub ∧ h ∈ sub.handlers
  simp only [Impl.handlersAt]
  cases i.subs[k]? <;> simp

theorem tables_register (i : Impl) (t : Topic) :
    (i.register t).tables =
      { subs := i.subs.insert (subKey t) ⟨t, i.handlersAt (subKey t) ++ [i.nextHandle + 1]⟩
        handles := i.handles.insert (i.nextHandle + 1) (subKey t)
        nextHandle := i.nextHandle + 1 } := by
  simp only [Impl.register, Impl.handlersAt]
  cases hsub : i.subs[subKey t]? with
  | none => rfl
  | some sub =>
      simp only
      split <;> rfl

theorem handles_register (i : Impl) (t : Topic) (h : Nat) :
    (i.register t).handles[h]? =
      if i.nextHandle + 1 = h then some (subKey t) else i.handles[h]? := by
  have htables := congrArg Tables.handles (tables_register i t)
  change (i.register t).handles = _ at htables
  rw [htables, ExtTreeMap.getElem?_insert]
  simp only [Std.compare_eq_iff_eq]

/-- **A handler is added.** -/
theorem Rostered.register {i : Impl} (hi : Rostered i.tables) (t : Topic) :
    Rostered (i.register t).tables := by
  have hfresh : i.nextHandle + 1 ∉ i.handlersAt (subKey t) := by
    intro hmem
    have hle := hi.counted _ _ ((mem_handlersAt hi).mp hmem)
    change i.nextHandle + 1 ≤ i.nextHandle at hle
    omega
  have hdistinct : (i.handlersAt (subKey t)).Nodup := by
    simp only [Impl.handlersAt]
    split
    · rename_i sub hsub
      exact hi.distinct _ sub hsub
    · exact List.nodup_nil
  have hsubs : ∀ k, (i.register t).tables.subs[k]? = if subKey t = k then
      some ⟨t, i.handlersAt (subKey t) ++ [i.nextHandle + 1]⟩ else i.subs[k]? := by
    intro k
    rw [tables_register, ExtTreeMap.getElem?_insert]
    simp only [Std.compare_eq_iff_eq]
  have hhandles : ∀ h, (i.register t).tables.handles[h]? = _ := handles_register i t
  constructor
  · intro h k
    rw [hhandles, hsubs]
    by_cases hkey : subKey t = k
    · subst hkey
      simp only [if_true, Option.some.injEq, exists_eq_left', List.mem_append, List.mem_singleton,
        mem_handlersAt hi]
      split
      · rename_i hnew
        simp [hnew]
      · rename_i hold
        simp [Ne.symm hold]
    · rw [if_neg hkey]
      split
      · rename_i hnew
        subst hnew
        refine iff_of_false (fun h => hkey (Option.some.inj h)) fun hmem => ?_
        have hle := hi.counted _ _ ((hi.handled _ k).mpr hmem)
        change i.nextHandle + 1 ≤ i.nextHandle at hle
        omega
      · exact hi.handled h k
  · intro k sub hsub
    rw [hsubs] at hsub
    split at hsub
    · obtain rfl := Option.some.inj hsub
      exact List.nodup_append_comm.mp (List.nodup_cons.mpr ⟨hfresh, hdistinct⟩)
    · exact hi.distinct k sub hsub
  · intro h k hk
    rw [hhandles] at hk
    rw [tables_register]
    split at hk
    · rename_i hnew
      exact hnew.ge
    · exact Nat.le_succ_of_le (hi.counted h k hk)

theorem handles_unregister (i : Impl) (handle h : Nat) :
    (i.unregister handle).handles[h]? = if handle = h then none else i.handles[h]? := by
  cases hk : i.handles[handle]? with
  | none =>
      have hsame : i.unregister handle = i := by simp only [Impl.unregister, hk]
      rw [hsame]
      split
      · rename_i hthis
        rw [← hthis, hk]
      · rfl
  | some k =>
      have herase : (i.handles.erase handle)[h]? = if handle = h then none else i.handles[h]? := by
        rw [ExtTreeMap.getElem?_erase]
        simp only [Std.compare_eq_iff_eq]
      simp only [Impl.unregister, hk]
      split
      · exact herase
      · split <;> exact herase

theorem nextHandle_unregister (i : Impl) (handle : Nat) :
    (i.unregister handle).nextHandle = i.nextHandle := by
  simp only [Impl.unregister]
  split
  · rfl
  · split
    · rfl
    · split <;> rfl

/-- **A handler is taken away.** -/
theorem Rostered.unregister {i : Impl} (hi : Rostered i.tables) (handle : Nat) :
    Rostered (i.unregister handle).tables := by
  cases hk : i.handles[handle]? with
  | none =>
      have hsame : i.unregister handle = i := by simp only [Impl.unregister, hk]
      rw [hsame]
      exact hi
  | some k =>
      obtain ⟨sub, hsub, hmem⟩ := (hi.handled handle k).mp hk
      change i.subs[k]? = some sub at hsub
      have hdistinct := hi.distinct k sub hsub
      have hsubs : ∀ k', (i.unregister handle).tables.subs[k']? = if k = k' then
          (if sub.handlers.erase handle = [] then none
            else some { sub with handlers := sub.handlers.erase handle })
          else i.subs[k']? := by
        intro k'
        simp only [Impl.unregister, hk, hsub]
        split
        · rename_i hleft
          have hsome : sub.handlers.erase handle ≠ [] := by
            intro hnil
            simp [hnil] at hleft
          change (i.subs.insert k _)[k']? = _
          rw [ExtTreeMap.getElem?_insert, if_neg hsome]
          simp only [Std.compare_eq_iff_eq]
        · rename_i hleft
          rw [Bool.not_eq_true, Bool.not_eq_false', List.isEmpty_iff] at hleft
          change (i.subs.erase k)[k']? = _
          rw [ExtTreeMap.getElem?_erase, if_pos hleft]
          simp only [Std.compare_eq_iff_eq]
      have hhandles : ∀ h, (i.unregister handle).tables.handles[h]? = _ :=
        handles_unregister i handle
      constructor
      · intro h k'
        rw [hhandles, hsubs]
        have hold : i.handles[h]? = some k' ↔ ∃ sub, i.subs[k']? = some sub ∧ h ∈ sub.handlers :=
          hi.handled h k'
        by_cases hkey : k = k'
        · subst hkey
          have hleft : (∃ sub', (if sub.handlers.erase handle = [] then none
              else some { sub with handlers := sub.handlers.erase handle }) = some sub' ∧
                h ∈ sub'.handlers) ↔ h ≠ handle ∧ h ∈ sub.handlers := by
            rw [← hdistinct.mem_erase_iff]
            split
            · rename_i hnil
              simp [hnil]
            · simp
          rw [if_pos rfl, hleft]
          by_cases hsame : handle = h
          · simp [hsame]
          · rw [if_neg hsame, hold]
            simp [hsub, Ne.symm hsame]
        · rw [if_neg hkey]
          by_cases hsame : handle = h
          · subst hsame
            rw [if_pos rfl]
            refine iff_of_false (by simp) fun hother => hkey ?_
            exact Option.some.inj (hk.symm.trans (hold.mpr hother))
          · rw [if_neg hsame]
            exact hold
      · intro k' sub' hsub'
        rw [hsubs] at hsub'
        split at hsub'
        · split at hsub'
          · simp at hsub'
          · obtain rfl := Option.some.inj hsub'
            exact hdistinct.erase handle
        · exact hi.distinct k' sub' hsub'
      · intro h k' hk'
        rw [hhandles] at hk'
        split at hk'
        · simp at hk'
        · change h ≤ (i.unregister handle).nextHandle
          rw [nextHandle_unregister]
          exact hi.counted h k' hk'

theorem rostered_initial (reconnect : Bool) (callTimeoutMs initialDelayMs maxDelayMs : Nat) :
    Rostered (Line.initial reconnect callTimeoutMs initialDelayMs maxDelayMs).exec.tables := by
  refine ⟨fun h k => ?_, fun k sub hsub => ?_, fun h k hk => ?_⟩ <;>
    simp_all [Line.initial, Impl.tables]

end CrowdyCpp.Exec
