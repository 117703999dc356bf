import AioServer.Linux.Trans

/-!
# The Linux server: which workers are alive

* `MainPc.live`: the workers that the starting thread still has to release;
* `Alive`: these and no others are allocated, each thread that has not returned has a worker
  of its own among them, and nothing was touched after its release;
* `alive_of_run`: this holds in every run, whatever fails.
-/

namespace AioServer.Linux

open Lib

variable {s s' : State}

/-! ## The invariant -/

/-- The workers that are to be released, when `sv_workers` holds `ws`. -/
def MainPc.live (ws : List Addr) : MainPc → List Addr
  | .init | .exited => []
  | .pthreadCreate _ a | .readStatus _ a | .destroy _ a => a :: ws
  | .cleanupWorker i => ws.drop i
  | _ => ws

/-- The workers that are to be released. -/
def State.live (s : State) : List Addr := s.main.live s.sv.svWorkers

/-- Before the workers there is the array for them. -/
def State.Level (s : State) : Prop :=
  s.sv.svRollback = 5 ∨ s.sv.svRollback ≤ 5 ∧ s.sv.svWorkers = [] ∧
    (s.main = .init ∨ s.main = .cleanup ∨ s.main = .exited)

/-- Workers, threads and the starting thread fit together. -/
structure Alive (s : State) : Prop where
  crashed : s.crashed = false
  level : s.Level
  nodup : s.live.Nodup
  live_iff : ∀ a, (s.workers a).isSome ↔ a ∈ s.live
  rollback : ∀ a w, s.workers a = some w → w.wkRollback = 5 ∨ w.wkRollback = 6
  fresh : ∀ l a w, s.main = .pthreadCreate l a → s.workers a = some w → w.wkRollback = 5
  /-- A thread that still runs has its own worker. -/
  threads : ∀ t th, s.threads[t]? = some th → th.pc ≠ .returned →
    ∃ w, s.workers th.arg = some w ∧ w.wkThreadid = t ∧ w.wkRollback = 6
  /-- A worker at level 6 has its own thread. -/
  joinable : ∀ a w, s.workers a = some w → w.wkRollback = 6 →
    ∃ th, s.threads[w.wkThreadid]? = some th ∧ th.arg = a

theorem alive_init : Alive State.init where
  crashed := rfl
  level := Or.inr ⟨by decide, rfl, Or.inl rfl⟩
  nodup := List.nodup_nil
  live_iff := by simp [State.init, State.live, MainPc.live]
  rollback := by simp [State.init]
  fresh := by simp [State.init]
  threads := by simp [State.init]
  joinable := by simp [State.init]

/-! ## Kinds of steps -/

section kinds

variable {a : Addr} {w w' : WorkerThread}

/-- No worker and no thread changes. -/
theorem Alive.of_same (h : Alive s) (hw : s'.workers = s.workers) (ht : s'.threads = s.threads)
    (hc : s'.crashed = s.crashed) (hlevel : s'.Level) (hlive : s'.live.Perm s.live)
    (hpc : ∀ l a, s'.main ≠ .pthreadCreate l a) : Alive s' where
  crashed := hc.trans h.crashed
  level := hlevel
  nodup := hlive.nodup_iff.mpr h.nodup
  live_iff a := by rw [hw, hlive.mem_iff]; exact h.live_iff a
  rollback := by rw [hw]; exact h.rollback
  fresh l a w hmain := absurd hmain (hpc l a)
  threads := by rw [hw, ht]; exact h.threads
  joinable := by rw [hw, ht]; exact h.joinable

/-- The worker `a` is released; its thread has returned. -/
theorem Alive.of_released (h : Alive s) (hw : s.workers a = some w)
    (hj : w.wkRollback = 6 → s.Returned w)
    (hworkers : s'.workers = Function.update s.workers a none) (ht : s'.threads = s.threads)
    (hc : s'.crashed = s.crashed) (hlevel : s'.Level) (hlive : s.live = a :: s'.live)
    (hpc : ∀ l a, s'.main ≠ .pthreadCreate l a) : Alive s' := by
  have hnodup := h.nodup
  rw [hlive, List.nodup_cons] at hnodup
  -- a worker that is still there is not `a`
  have hold : ∀ {b v}, s'.workers b = some v → b ≠ a ∧ s.workers b = some v := by
    intro b v hv
    rw [hworkers] at hv
    by_cases hb : b = a
    · subst hb
      simp at hv
    · exact ⟨hb, by rwa [Function.update_of_ne hb] at hv⟩
  refine ⟨hc.trans h.crashed, hlevel, hnodup.2, ?_, ?_, ?_, ?_, ?_⟩
  · intro b
    rw [hworkers]
    by_cases hb : b = a
    · subst hb
      simpa using hnodup.1
    · rw [Function.update_of_ne hb, h.live_iff b, hlive, List.mem_cons]
      simp [hb]
  · intro b v hv
    exact h.rollback b v (hold hv).2
  · intro l b v hmain
    exact absurd hmain (hpc l b)
  · intro t th hth hrun
    rw [ht] at hth
    obtain ⟨v, hv, hid, hr⟩ := h.threads t th hth hrun
    refine ⟨v, ?_, hid, hr⟩
    have hne : th.arg ≠ a := by
      intro harg
      rw [harg, hw] at hv
      obtain rfl := Option.some.inj hv
      have hret := hj hr
      rw [State.Returned, hid, hth] at hret
      exact hrun (Option.some.inj hret)
    rw [hworkers, Function.update_of_ne hne]
    exact hv
  · intro b v hv hr
    rw [ht]
    exact h.joinable b v (hold hv).2 hr

/-- A worker changes, but not its thread and its level. -/
theorem Alive.of_worker (h : Alive s) (hw : s.workers a = some w)
    (hworkers : s'.workers = Function.update s.workers a (some w'))
    (hid : w'.wkThreadid = w.wkThreadid) (hr : w'.wkRollback = w.wkRollback)
    (ht : s'.threads = s.threads) (hc : s'.crashed = s.crashed) (hlevel : s'.Level)
    (hlive : s'.live = s.live)
    (hpc : s'.main = s.main ∨ ∀ l a, s'.main ≠ .pthreadCreate l a) : Alive s' := by
  -- each worker has the thread and the level that it had
  have hold : ∀ {b v}, s'.workers b = some v → ∃ u, s.workers b = some u ∧
      v.wkThreadid = u.wkThreadid ∧ v.wkRollback = u.wkRollback := by
    intro b v hv
    rw [hworkers] at hv
    by_cases hb : b = a
    · subst hb
      rw [Function.update_self] at hv
      obtain rfl := Option.some.inj hv
      exact ⟨w, hw, hid, hr⟩
    · rw [Function.update_of_ne hb] at hv
      exact ⟨v, hv, rfl, rfl⟩
  refine ⟨hc.trans h.crashed, hlevel, hlive ▸ h.nodup, ?_, ?_, ?_, ?_, ?_⟩
  · intro b
    rw [hlive, ← h.live_iff b, hworkers]
    by_cases hb : b = a
    · subst hb
      simp [hw]
    · rw [Function.update_of_ne hb]
  · intro b v hv
    obtain ⟨u, hu, -, hlv⟩ := hold hv
    rw [hlv]
    exact h.rollback b u hu
  · intro l b v hmain hv
    obtain ⟨u, hu, -, hlv⟩ := hold hv
    rcases hpc with hpc | hpc
    · rw [hlv]
      exact h.fresh l b u (hpc ▸ hmain) hu
    · exact absurd hmain (hpc l b)
  · intro t th hth hrun
    rw [ht] at hth
    obtain ⟨v, hv, hvid, hvr⟩ := h.threads t th hth hrun
    rw [hworkers]
    by_cases hb : th.arg = a
    · rw [hb, hw] at hv
      obtain rfl := Option.some.inj hv
      exact ⟨w', by rw [hb, Function.update_self], hid.trans hvid, hr.trans hvr⟩
    · exact ⟨v, by rw [Function.update_of_ne hb]; exact hv, hvid, hvr⟩
  · intro b v hv hlevel
    obtain ⟨u, hu, hvid, hlv⟩ := hold hv
    rw [ht, hvid]
    exact h.joinable b u hu (hlv ▸ hlevel)

/-- A thread moves on. -/
theorem Alive.of_thread (h : Alive s) {t : ThreadId} {th th' : Thread}
    (ht : s.threads[t]? = some th) (hthreads : s'.threads = s.threads.set t th')
    (harg : th'.arg = th.arg) (hrun : th.pc ≠ .returned) (hworkers : s'.workers = s.workers)
    (hc : s'.crashed = s.crashed) (hmain : s'.main = s.main) (hsv : s'.sv = s.sv) :
    Alive s' := by
  have hlive : s'.live = s.live := by rw [State.live, hmain, hsv]; rfl
  have hlt : t < s.threads.length := (List.getElem?_eq_some_iff.mp ht).1
  refine ⟨hc.trans h.crashed, ?_, hlive ▸ h.nodup, ?_, ?_, ?_, ?_, ?_⟩
  · rw [State.Level, hsv, hmain]
    exact h.level
  · rw [hlive, hworkers]
    exact h.live_iff
  · rw [hworkers]
    exact h.rollback
  · rw [hworkers, hmain]
    exact h.fresh
  · intro u th₁ hth₁ hrun₁
    rw [hthreads, List.getElem?_set] at hth₁
    rw [hworkers]
    split_ifs at hth₁ with heq
    · obtain rfl := Option.some.inj hth₁
      rw [harg, ← heq]
      exact h.threads t th ht hrun
    · exact h.threads u th₁ hth₁ hrun₁
  · intro b v hv hr
    rw [hworkers] at hv
    obtain ⟨th₁, hth₁, harg₁⟩ := h.joinable b v hv hr
    rw [hthreads, List.getElem?_set]
    split_ifs with heq
    · rw [← heq, ht] at hth₁
      obtain rfl := Option.some.inj hth₁
      exact ⟨th', rfl, harg.trans harg₁⟩
    · exact ⟨th₁, hth₁, harg₁⟩

/-- The block is not in use before `worker_thread_create`. -/
theorem Alive.of_created (h : Alive s) (ha : s.workers a = none) (hr : w.wkRollback = 5)
    (hworkers : s'.workers = Function.update s.workers a (some w))
    (ht : s'.threads = s.threads) (hc : s'.crashed = s.crashed) (hlevel : s'.Level)
    (hlive : s'.live = a :: s.live)
    (hpc : ∀ l b, s'.main = .pthreadCreate l b → b = a) : Alive s' := by
  have hnew : s'.workers a = some w := by rw [hworkers, Function.update_self]
  have hold : ∀ {b v}, s.workers b = some v → b ≠ a ∧ s'.workers b = some v := by
    intro b v hv
    have hb : b ≠ a := by
      intro hb
      rw [hb, ha] at hv
      cases hv
    exact ⟨hb, by rw [hworkers, Function.update_of_ne hb]; exact hv⟩
  refine ⟨hc.trans h.crashed, hlevel, ?_, ?_, ?_, ?_, ?_, ?_⟩
  · rw [hlive, List.nodup_cons, ← h.live_iff a, ha]
    exact ⟨by simp, h.nodup⟩
  · intro b
    rw [hlive, List.mem_cons, ← h.live_iff b, hworkers]
    by_cases hb : b = a
    · subst hb
      simp
    · rw [Function.update_of_ne hb]
      simp [hb]
  · intro b v hv
    rw [hworkers] at hv
    by_cases hb : b = a
    · subst hb
      rw [Function.update_self] at hv
      obtain rfl := Option.some.inj hv
      exact Or.inl hr
    · rw [Function.update_of_ne hb] at hv
      exact h.rollback b v hv
  · intro l b v hmain hv
    rw [hpc l b hmain, hnew] at hv
    obtain rfl := Option.some.inj hv
    exact hr
  · intro t th hth hrun
    rw [ht] at hth
    obtain ⟨v, hv, hid, hvr⟩ := h.threads t th hth hrun
    exact ⟨v, (hold hv).2, hid, hvr⟩
  · intro b v hv hvr
    rw [hworkers] at hv
    by_cases hb : b = a
    · subst hb
      rw [Function.update_self] at hv
      obtain rfl := Option.some.inj hv
      omega
    · rw [Function.update_of_ne hb] at hv
      rw [ht]
      exact h.joinable b v hv hvr

/-- `pthread_create` succeeds. -/
theorem Alive.of_started (h : Alive s) {l : ℕ} (hpc : s.main = .pthreadCreate l a)
    (hw : s.workers a = some w) : Alive (s.started l a w) := by
  have hr : w.wkRollback = 5 := h.fresh l a w hpc hw
  have hlive : (s.started l a w).live = s.live := by rw [State.live, State.live, hpc]; rfl
  -- `a` was at level 5, so no thread has it as its worker
  have hother : ∀ {t : ThreadId} {th : Thread}, s.threads[t]? = some th → th.pc ≠ .returned →
      th.arg ≠ a := by
    intro t th hth hrun harg
    obtain ⟨v, hv, -, hvr⟩ := h.threads t th hth hrun
    rw [harg, hw] at hv
    obtain rfl := Option.some.inj hv
    omega
  refine ⟨h.crashed, ?_, hlive ▸ h.nodup, ?_, ?_, ?_, ?_, ?_⟩
  · rcases h.level with hlevel | ⟨-, -, hmain⟩
    · exact Or.inl hlevel
    · simp [hpc] at hmain
  · intro b
    rw [hlive, ← h.live_iff b]
    show (Function.update s.workers a _ b).isSome = true ↔ _
    by_cases hb : b = a
    · subst hb
      simp [hw]
    · rw [Function.update_of_ne hb]
  · intro b v hv
    change Function.update s.workers a _ b = some v at hv
    by_cases hb : b = a
    · subst hb
      rw [Function.update_self] at hv
      obtain rfl := Option.some.inj hv
      exact Or.inr (by simp [hr])
    · rw [Function.update_of_ne hb] at hv
      exact h.rollback b v hv
  · intro l b v hmain
    cases hmain
  · intro t th hth hrun
    change (s.threads ++ [_])[t]? = some th at hth
    show ∃ v, Function.update s.workers a _ th.arg = some v ∧ _
    rw [List.getElem?_append] at hth
    split_ifs at hth with hlt
    · obtain ⟨v, hv, hid, hvr⟩ := h.threads t th hth hrun
      exact ⟨v, by rw [Function.update_of_ne (hother hth hrun)]; exact hv, hid, hvr⟩
    · rw [List.getElem?_singleton] at hth
      split_ifs at hth with hidx
      obtain rfl := Option.some.inj hth
      have ht : t = s.threads.length :=
        Nat.le_antisymm (Nat.le_of_sub_eq_zero hidx) (Nat.le_of_not_lt hlt)
      exact ⟨_, Function.update_self .., by simp [ht], by simp [hr]⟩
  · intro b v hv hvr
    change Function.update s.workers a _ b = some v at hv
    show ∃ th, (s.threads ++ [_])[v.wkThreadid]? = some th ∧ th.arg = b
    by_cases hb : b = a
    · subst hb
      rw [Function.update_self] at hv
      obtain rfl := Option.some.inj hv
      exact ⟨⟨b, .addTermsig, none⟩, by simp, rfl⟩
    · rw [Function.update_of_ne hb] at hv
      obtain ⟨th, hth, harg⟩ := h.joinable b v hv hvr
      have hlt := (List.getElem?_eq_some_iff.mp hth).1
      exact ⟨th, by rw [List.getElem?_append_left hlt]; exact hth, harg⟩

end kinds

/-! ## Every step -/

/-- The starting thread never touches a released worker. -/
theorem Alive.touches_isSome (h : Alive s) {a : Addr}
    (ha : s.main.touches s.sv.svWorkers = some a) : (s.workers a).isSome := by
  rw [h.live_iff, State.live]
  cases hpc : s.main with
  | pthreadCreate l b =>
    rw [hpc] at ha
    obtain rfl := Option.some.inj ha
    exact List.mem_cons_self
  | destroy l b =>
    rw [hpc] at ha
    obtain rfl := Option.some.inj ha
    exact List.mem_cons_self
  | notify i events =>
    rw [hpc] at ha
    exact List.mem_of_getElem? ha
  | cleanupWorker i =>
    rw [hpc] at ha
    have hhead : (s.sv.svWorkers.drop i)[0]? = some a := by
      rw [List.getElem?_drop]
      exact ha
    exact List.mem_of_getElem? hhead
  | _ =>
    rw [hpc] at ha
    cases ha

/-- So no step meets a worker that is gone. -/
theorem Alive.touches_ne_none (h : Alive s) {a : Addr}
    (ha : s.main.touches s.sv.svWorkers = some a) : s.workers a ≠ none :=
  Option.isSome_iff_ne_none.mp (h.touches_isSome ha)

/-- Where the loop of `server_init` or a later loop runs, the array is there. -/
theorem Alive.level_eq (h : Alive s) (hpc : s.main ≠ .init ∧ s.main ≠ .cleanup ∧ s.main ≠ .exited) :
    s.sv.svRollback = 5 := by
  rcases h.level with hlevel | ⟨-, -, hmain⟩
  · exact hlevel
  · rcases hmain with hmain | hmain | hmain
    · exact absurd hmain hpc.1
    · exact absurd hmain hpc.2.1
    · exact absurd hmain hpc.2.2

/-- The starting thread goes on, and neither the live workers nor the level of the server change. -/
theorem Alive.of_moved (h : Alive s) (hmain : s.main ≠ .init ∧ s.main ≠ .cleanup ∧ s.main ≠ .exited)
    (hw : s'.workers = s.workers) (ht : s'.threads = s.threads) (hc : s'.crashed = s.crashed)
    (hr : s'.sv.svRollback = s.sv.svRollback) (hlive : s'.live = s.live)
    (hpc : ∀ l a, s'.main ≠ .pthreadCreate l a) : Alive s' :=
  h.of_same hw ht hc (Or.inl (hr.trans (h.level_eq hmain))) (List.Perm.of_eq hlive) hpc

theorem Alive.main_step (h : Alive s) {call : MainCall} (hs : MainTrans s call s') :
    Alive s' := by
  cases hs with
  | eintr => exact h
  | initFails o sv es hpc hset =>
    refine h.of_same rfl rfl rfl (Or.inr ⟨hset.rollback, hset.workers, Or.inr (Or.inl rfl)⟩) ?_ ?_
    · rw [State.live, State.live, hpc]
      exact List.Perm.of_eq hset.workers
    · simp [State.setMain]
  | init o sv es n hpc hset =>
    refine h.of_same rfl rfl rfl (Or.inl (hset.reached n rfl).1) ?_ ?_
    · rw [State.live, State.live, hpc]
      exact List.Perm.of_eq hset.workers
    · simp [State.setMain]
  | createFails l o es hpc hl hc =>
    refine h.of_moved (by simp [hpc]) rfl rfl rfl rfl ?_ ?_
    · rw [State.live, State.live, hpc]
      rfl
    · simp [State.setMain]
  | create l o a w es hpc hl hc ha =>
    have hr := h.level_eq (by simp [hpc])
    refine h.of_created ha (settle_create hc).2.2.2.1 rfl rfl rfl (Or.inl hr) ?_ ?_
    · rw [State.live, State.live, hpc]
      rfl
    · intro l' b hmain
      cases hmain
      rfl
  | loopDone l hpc hl =>
    refine h.of_moved (by simp [hpc]) rfl rfl rfl rfl ?_ ?_
    · rw [State.live, State.live, hpc]
      simp only [State.setMain]
      split_ifs <;> rfl
    · intro l' b hmain
      simp only [State.setMain] at hmain
      split_ifs at hmain
  | start l a w hpc hw => exact h.of_started hpc hw
  | startFails l a w hpc hw =>
    have hr := h.level_eq (by simp [hpc])
    refine h.of_worker hw rfl rfl rfl rfl rfl (Or.inl hr) ?_ (Or.inr ?_)
    · rw [State.live, State.live, hpc]
      rfl
    · simp [State.setMain]
  | readOk l a hpc hready =>
    have hr := h.level_eq (by simp [hpc])
    refine h.of_same rfl rfl rfl (Or.inl hr) ?_ ?_
    · rw [State.live, State.live, hpc]
      exact List.perm_append_singleton a s.sv.svWorkers
    · simp [State.enlisted, State.setMain]
  | readFail l a hpc h0 hready =>
    refine h.of_moved (by simp [hpc]) rfl rfl rfl rfl ?_ ?_
    · rw [State.live, State.live, hpc]
      rfl
    · simp [State.setMain]
  | readFails l a hpc =>
    refine h.of_moved (by simp [hpc]) rfl rfl rfl rfl ?_ ?_
    · rw [State.live, State.live, hpc]
      rfl
    · simp [State.setMain]
  | destroy l a w hpc hw hj =>
    have hr := h.level_eq (by simp [hpc])
    refine h.of_released hw hj rfl rfl rfl (Or.inl hr) ?_ ?_
    · rw [State.live, hpc]
      rfl
    · simp [State.destroyed, State.setMain]
  | epollFails hpc =>
    refine h.of_moved (by simp [hpc]) rfl rfl rfl rfl ?_ ?_
    · rw [State.live, State.live, hpc]
      rfl
    · simp [State.setMain]
  | epollWait events hpc =>
    refine h.of_moved (by simp [hpc]) rfl rfl rfl rfl ?_ ?_
    · rw [State.live, State.live, hpc]
      rfl
    · simp [State.setMain]
  | quitSeen events hpc hq =>
    refine h.of_moved (by simp [hpc]) rfl rfl rfl rfl ?_ ?_
    · rw [State.live, State.live, hpc]
      rfl
    · simp [State.setMain]
  | eventsDone hpc hq =>
    refine h.of_moved (by simp [hpc]) rfl rfl rfl rfl ?_ ?_
    · rw [State.live, State.live, hpc]
      rfl
    · simp [State.setMain]
  | dispatch fd events pc hpc hq hto =>
    refine h.of_moved (by simp [hpc]) rfl rfl rfl rfl ?_ ?_
    · rw [State.live, State.live, hpc]
      rcases hto with rfl | rfl | rfl <;> rfl
    · rcases hto with rfl | rfl | rfl <;> simp [State.setMain]
  | acceptDone events hpc =>
    refine h.of_moved (by simp [hpc]) rfl rfl rfl rfl ?_ ?_
    · rw [State.live, State.live, hpc]
      rfl
    · simp [State.setMain]
  | acceptFails events hpc => exact h
  | accept events fd hpc =>
    refine h.of_same rfl rfl rfl h.level (List.Perm.refl _) ?_
    simp [State.record, hpc]
  | notify i events a w hpc hi hw =>
    have hr := h.level_eq (by simp [hpc])
    refine h.of_same notified_workers notified_threads notified_crashed (Or.inl ?_) ?_ ?_
    · rw [notified_sv]
      exact hr
    · rw [State.live, State.live, notified_sv, notified_main, hpc]
      rfl
    · simp
  | notifyDone i events hpc hi =>
    refine h.of_moved (by simp [hpc]) rfl rfl rfl rfl ?_ ?_
    · rw [State.live, State.live, hpc]
      rfl
    · simp [State.setMain]
  | cleanup hpc hr =>
    refine h.of_same rfl rfl rfl (Or.inl hr) ?_ ?_
    · rw [State.live, State.live, hpc]
      rfl
    · simp [State.setMain]
  | cleanupNone hpc hr =>
    rcases h.level with hlevel | ⟨hle, hnone, -⟩
    · exact absurd hlevel hr
    refine h.of_same rfl rfl rfl (Or.inr ⟨hle, hnone, Or.inr (Or.inr rfl)⟩) ?_ ?_
    · rw [State.live, State.live, hpc]
      exact List.Perm.of_eq hnone.symm
    · simp [State.setMain]
  | cleanupWorker i a w hpc hi hw hj =>
    have hr := h.level_eq (by simp [hpc])
    refine h.of_released hw hj rfl rfl rfl (Or.inl hr) ?_ ?_
    · rw [State.live, hpc]
      exact List.drop_eq_getElem?_toList_append.trans (by rw [hi]; rfl)
    · simp [State.destroyed, State.setMain]
  | cleanupDone i hpc hi =>
    have hr := h.level_eq (by simp [hpc])
    refine h.of_same rfl rfl rfl (Or.inl hr) ?_ ?_
    · rw [State.live, State.live, hpc]
      exact List.Perm.of_eq (List.drop_eq_nil_of_le (by omega)).symm
    · simp [State.setMain]
  | crash _ a _ ha hdead =>
    exact absurd hdead (h.touches_ne_none ha)

theorem Alive.thread_step (h : Alive s) {t : ThreadId} {th : Thread} {call : ThreadCall}
    (ht : s.threads[t]? = some th) (hs : ThreadTrans s t th call s') : Alive s' := by
  cases hs with
  | eintr => exact h
  | addTermsig ok w hpc hw =>
    exact h.of_thread ht rfl rfl (by simp [hpc]) rfl rfl rfl rfl
  | addMessagequeue result ok w hpc hw =>
    exact h.of_thread ht rfl rfl (by simp [hpc]) rfl rfl rfl rfl
  | report result w counter hpc hw hc =>
    exact h.of_thread ht rfl rfl (by simp [hpc]) rfl rfl rfl rfl
  | reportFails result w hpc hw => exact h.of_thread ht rfl rfl (by simp [hpc]) rfl rfl rfl rfl
  | quit w hpc hw hq => exact h.of_thread ht rfl rfl (by simp [hpc]) rfl rfl rfl rfl
  | epollFails w hpc hw hq => exact h.of_thread ht rfl rfl (by simp [hpc]) rfl rfl rfl rfl
  | epollWait w events hpc hw hq =>
    exact h.of_worker hw rfl rfl rfl rfl rfl h.level rfl (Or.inl rfl)
  | crash _ _ hpc hdead =>
    obtain ⟨w, hw, -⟩ := h.threads t th ht hpc
    rw [hdead] at hw
    cases hw

theorem Alive.step {a : Action} (h : Alive s) (hs : step s a = some s') : Alive s' := by
  cases trans_of_step hs with
  | main hm => exact h.main_step hm
  | thread ht hth => exact h.thread_step ht hth

/-- In every run, whatever fails, no worker is touched after its release. -/
theorem alive_of_run {tr : List (State × Action)} (hrun : ServerRun tr s) : Alive s :=
  hrun.invariant alive_init fun _ _ _ h hs => h.step hs

end AioServer.Linux
