import AioServer.Windows.Startup

/-!
# The Windows server: the array of worker threads

`server_init` multiplies the number of processors with `so_thread_to_processor_ratio`, and the
product with `sizeof(HANDLE)` for the size of its array; both are computed in 32 bits. It then
fills as many entries as `(int) sv_worker_count` says, which `server_cleanup_and_shutdown`
goes through again.

* `soThreadToProcessorRatio`: what the options can set the ratio to;
* `ArraySound`: the entries lie in the array, and their number is the product;
* `arraySound_iff`: for which products that holds.
-/

namespace AioServer.Windows.Startup

/-! ## The code -/

/-- `kSVDefaultThreadToProcessorRatio`. -/
def kSVDefaultThreadToProcessorRatio : ℤ := 1

/-- The option `thread-to-processor-ratio`, with what `atoi` returns for it. -/
def setThreadToProcessorRatio (soThreadToProcessorRatio tpRatio : ℤ) : ℤ :=
  if tpRatio ≠ 0 then tpRatio else soThreadToProcessorRatio

/-- `so_thread_to_processor_ratio` after these options. -/
def soThreadToProcessorRatio (options : List ℤ) : ℤ :=
  options.foldl setThreadToProcessorRatio kSVDefaultThreadToProcessorRatio

/-- A value of type `int`. -/
def IsInt (x : ℤ) : Prop := -2 ^ 31 ≤ x ∧ x < 2 ^ 31

instance (x : ℤ) : Decidable (IsInt x) := inferInstanceAs (Decidable (_ ∧ _))

/-- `sizeof(HANDLE)`. -/
def sizeofHandle : ℕ := 4

/-- The size that is requested for `sv_worker_threads`. -/
def ServerData.requestedBytes (sv : ServerData) : ℕ := sizeofHandle * sv.svWorkerCount % 2 ^ 32

/-! ## What the array is for -/

/-- The option parser accepts the ratio. -/
def Accepted (ratio : ℤ) : Prop :=
  ∃ options, (∀ x ∈ options, IsInt x) ∧ soThreadToProcessorRatio options = ratio

/-- Every entry that `server_init` writes, and `server_cleanup_and_shutdown` reads, lies inside
the array; and there is one for each worker that was asked for. -/
structure ArraySound (processors : ℕ) (ratio : ℤ) (sv : ServerData) : Prop where
  inside : ∀ i, i < sv.svThreads.length → sizeofHandle * (i + 1) ≤ sv.requestedBytes
  count : (sv.svWorkerCount : ℤ) = processors * ratio

section ratio

variable {ratio : ℤ}

theorem isInt_of_options {options : List ℤ} {r : ℤ} (hr : IsInt r ∧ r ≠ 0)
    (h : ∀ x ∈ options, IsInt x) : IsInt (options.foldl setThreadToProcessorRatio r) ∧
      options.foldl setThreadToProcessorRatio r ≠ 0 := by
  induction options generalizing r with
  | nil => exact hr
  | cons x options ih =>
    refine ih ?_ fun y hy => h y (List.mem_cons_of_mem x hy)
    unfold setThreadToProcessorRatio
    split_ifs with hx
    · exact ⟨h x List.mem_cons_self, hx⟩
    · exact hr

/-- Every value of type `int` except 0, also a negative one. -/
theorem accepted_iff : Accepted ratio ↔ IsInt ratio ∧ ratio ≠ 0 := by
  constructor
  · rintro ⟨options, h, rfl⟩
    exact isInt_of_options (by decide) h
  · rintro ⟨hint, hne⟩
    refine ⟨[ratio], by simpa using hint, ?_⟩
    simp [soThreadToProcessorRatio, setThreadToProcessorRatio, hne]

end ratio

/-! ## What `server_init` computes -/

section init

variable {stats : Bool} {ratio : ℤ} {o : InitCalls} {sv : ServerData} {es : Events}

/-- The worker count of a server with its threads. -/
structure Started (workerCount : ℕ) (sv : ServerData) : Prop where
  count : sv.svWorkerCount = workerCount
  threads : sv.svThreads.length = sv.rounds

theorem started_threads (h : (serverInitThreads stats o sv es).2.1 = true) :
    Started sv.svWorkerCount (serverInitThreads stats o sv es).1 := by
  unfold serverInitThreads at h ⊢
  cases ha : o.alMemAlloc with
  | none => simp [ha] at h
  | some array => exact ⟨rfl, by simp [ServerData.rounds]⟩

theorem started_pointers (h : (serverInitPointers stats o sv es).2.1 = true) :
    Started sv.svWorkerCount (serverInitPointers stats o sv es).1 := by
  unfold serverInitPointers at h ⊢
  cases ha : loadFunctionPointerFromWsa o.acceptx with
  | none => simp [ha] at h
  | some acceptx =>
    cases hg : loadFunctionPointerFromWsa o.getacceptexsockaddrs with
    | none => simp [ha, hg] at h
    | some getacceptexsockaddrs =>
      cases ht : loadFunctionPointerFromWsa o.transmitFile with
      | none => simp [ha, hg, ht] at h
      | some transmitFile =>
        cases hp : o.updateCompletionPort with
        | false => simp [ha, hg, ht, hp] at h
        | true =>
          simp only [ha, hg, ht, hp, if_true] at h ⊢
          exact started_threads h

theorem started_ports (h : (serverInitPorts stats ratio o sv es).2.1 = true) :
    Started (o.dwNumberOfProcessors * ratio % 2 ^ 32).toNat
      (serverInitPorts stats ratio o sv es).1 := by
  unfold serverInitPorts at h ⊢
  cases hi : o.iocp with
  | none => simp [hi] at h
  | some iocp =>
    cases ha : o.iocpAccept with
    | none => simp [hi, ha] at h
    | some iocpAccept =>
      rcases hr : createServerSocket o.socket with ⟨svSock, fs⟩
      cases svSock with
      | none => simp [hi, ha, hr] at h
      | some svSock =>
        simp only [hi, ha, hr] at h ⊢
        exact started_pointers h

theorem started_init (h : (serverInit stats ratio o).2.1 = true) :
    Started (o.dwNumberOfProcessors * ratio % 2 ^ 32).toNat (serverInit stats ratio o).1 := by
  unfold serverInit at h ⊢
  cases hw : o.wsaStartup with
  | false => simp [hw] at h
  | true =>
    simp only [hw, if_true] at h ⊢
    exact started_ports h

/-! ## The two products -/

/-- A product that is not the true one is not negative and below 2^32. -/
theorem toNat_mod_eq_iff {n : ℤ} : ((n % 2 ^ 32).toNat : ℤ) = n ↔ 0 ≤ n ∧ n < 2 ^ 32 := by
  omega

/-- The entries below `(int) sv_worker_count` fit into the requested bytes. -/
theorem inside_iff (hcount : sv.svWorkerCount < 2 ^ 32) :
    (∀ i, i < sv.rounds → sizeofHandle * (i + 1) ≤ sv.requestedBytes) ↔
      sv.svWorkerCount < 2 ^ 30 ∨ 2 ^ 31 ≤ sv.svWorkerCount := by
  unfold ServerData.rounds ServerData.requestedBytes sizeofHandle
  constructor
  · intro h
    by_contra hout
    -- the last entry does not fit
    have hlast := h (sv.svWorkerCount - 1) (by rw [if_pos (by omega)]; omega)
    omega
  · rintro hsmall i hi
    split_ifs at hi with hrounds
    · omega
    · omega

/-- A server that has been started has room for its threads, and as many as were asked for, if
and only if the product of processors and ratio is not negative, below 2^32, and not from 2^30
to 2^31. -/
theorem arraySound_iff (h : (serverInit stats ratio o).2.1 = true) :
    ArraySound o.dwNumberOfProcessors ratio (serverInit stats ratio o).1 ↔
      0 ≤ o.dwNumberOfProcessors * ratio ∧ (o.dwNumberOfProcessors * ratio < 2 ^ 30 ∨
        2 ^ 31 ≤ o.dwNumberOfProcessors * ratio ∧ o.dwNumberOfProcessors * ratio < 2 ^ 32) := by
  obtain ⟨hcount, hthreads⟩ := started_init h
  have hinside := @inside_iff (serverInit stats ratio o).1 (by rw [hcount]; omega)
  rw [hcount] at hinside
  constructor
  · rintro ⟨hin, hprod⟩
    rw [hthreads] at hin
    have hfit := hinside.mp hin
    rw [hcount, toNat_mod_eq_iff] at hprod
    omega
  · intro hrange
    have hprod : 0 ≤ o.dwNumberOfProcessors * ratio ∧ o.dwNumberOfProcessors * ratio < 2 ^ 32 := by
      omega
    refine ⟨?_, ?_⟩
    · rw [hthreads]
      exact hinside.mpr (by omega)
    · rw [hcount]
      exact toNat_mod_eq_iff.mpr hprod

end init

/-- A start in which every call succeeds, on a machine with four processors. -/
def startOnFour : InitCalls :=
  { startWithoutList with dlistCreate := some 9, dwNumberOfProcessors := 4 }

/-- The default ratio. -/
theorem arraySound_default : ArraySound 4 1 (serverInit false 1 startOnFour).1 :=
  (arraySound_iff (o := startOnFour) rfl).mpr (by decide)

/-- The ratio 2^28 + 1 asks for 2^30 + 4 threads: the array has room for 4. -/
theorem array_overrun : ¬ ∀ (stats : Bool) (ratio : ℤ) (o : InitCalls), Accepted ratio →
    1 ≤ o.dwNumberOfProcessors → (serverInit stats ratio o).2.1 = true →
    ArraySound o.dwNumberOfProcessors ratio (serverInit stats ratio o).1 := by
  intro h
  have hsound := h false (2 ^ 28 + 1) startOnFour (accepted_iff.mpr (by decide)) (by decide) rfl
  have hstarted : Started _ (serverInit false (2 ^ 28 + 1) startOnFour).1 := started_init rfl
  have hcount : (serverInit false (2 ^ 28 + 1) startOnFour).1.svWorkerCount = 2 ^ 30 + 4 := by
    rw [hstarted.count]
    decide
  have hfifth := hsound.inside 4
  rw [hstarted.threads] at hfifth
  unfold ServerData.rounds ServerData.requestedBytes sizeofHandle at hfifth
  rw [hcount] at hfifth
  exact absurd (hfifth (by decide)) (by decide)

end AioServer.Windows.Startup
