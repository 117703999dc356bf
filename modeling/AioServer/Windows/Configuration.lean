import AioServer.Windows.AcceptLimit
import AioServer.Windows.Options
import Mathlib.Data.List.Induction

/-!
# The Windows server: which configurations are accepted

Each option checks its value in its own way: the ratio must not be 0, `atoi` of the port must be
in a range while the string itself is stored, the connection limit must be positive, and the
number of outstanding accepts is not checked.

* `CanRun`: options with which the server can run; with no outstanding accepts it never accepts
  (`no_accepts`);
* `Runnable`: a command line leads to such options, and values outside their range change nothing;
* `Given.Checked`: the values for which the checks are enough;
* `runnable_iff`: a command line is runnable when its values are of that kind.
-/

namespace AioServer.Windows.CommandLine

open Lib

/-! ## What an accepted configuration should be -/

/-- The string is the decimal numeral of a port. -/
def IsPort (s : List UInt8) : Prop := ∃ p, readDecimal s = some p ∧ 1 ≤ p ∧ p ≤ 65535

/-- Options with which the server can run. -/
structure CanRun (opts : ServerOpts) : Prop where
  ratio : 1 ≤ opts.soThreadToProcessorRatio
  accepts : 1 ≤ opts.soMaxOutstandingAccepts
  port : ∃ s, opts.soPort = some s ∧ IsPort s
  clients : opts.soMaxClients = kSVDefaultUnlimitedConnections ∨ 0 < opts.soMaxClients

/-- The values that an option is for. -/
def ValueOption.InRange (value : List UInt8) : ValueOption → Prop
  | .threadToProcessorRatio => 1 ≤ atoi value
  | .port => IsPort value
  | .wwwRootDir => True
  | .connectionLimit => 0 < atoi value
  | .maxOutstandingAccepts => 1 ≤ atoi value

/-- The loop ends with these options. -/
def Parsed (argv : List (List UInt8)) (opts : ServerOpts) : Prop :=
  ∃ fuel s, parseLoop fuel (.start argv) = some s ∧ s.svOptions = opts

/-- The options of a command line with these parts let the server run, and each value outside its
range leaves the options as they were without it and what follows. -/
structure Runnable (argv : List (List UInt8)) (gs : List Given) : Prop where
  canRun : ∃ opts, Parsed argv opts ∧ CanRun opts
  kept : ∀ front o value back, gs = front ++ .valued o value :: back → ¬ o.InRange value →
    ∃ opts, Parsed (argv.take 1 ++ front.flatMap Given.args) opts ∧
      Parsed (argv.take 1 ++ (front ++ [.valued o value]).flatMap Given.args) opts

/-- The values for which the checks of the options are enough. -/
def Given.Checked : Given → Prop
  | .valued .threadToProcessorRatio value => 0 ≤ atoi value
  | .valued .port value => 0 < atoi value ∧ atoi value < 65535 → (readDecimal value).isSome
  | .valued .maxOutstandingAccepts value => 1 ≤ atoi value
  | _ => True

/-! ## One part of the command line -/

section parts

variable {opts : ServerOpts} {g : Given} {gs : List Given} {o : ValueOption} {value : List UInt8}
  {argv : List (List UInt8)}

/-- A numeral that passes the check is one of a port. -/
theorem isPort_of_check (hnumeral : (readDecimal value).isSome)
    (hrange : 0 < atoi value ∧ atoi value < 65535) : IsPort value := by
  obtain ⟨p, hp⟩ := Option.isSome_iff_exists.mp hnumeral
  have hatoi := atoi_of_readDecimal hp
  exact ⟨p, hp, by omega, by omega⟩

/-- Checked values leave options with which the server can run. -/
theorem canRun_apply (h : CanRun opts) (hg : g.Checked) : CanRun (g.apply opts) := by
  cases g with
  | unknown text _ => exact h
  | stray arg _ => exact h
  | valued o value =>
    cases o with
    | threadToProcessorRatio =>
      refine ⟨?_, h.accepts, h.port, h.clients⟩
      have hvalue : 0 ≤ atoi value := hg
      show 1 ≤ Startup.setThreadToProcessorRatio opts.soThreadToProcessorRatio (atoi value)
      unfold Startup.setThreadToProcessorRatio
      split_ifs with hne
      · omega
      · exact h.ratio
    | port =>
      show CanRun (if 0 < atoi value ∧ atoi value < 65535 then _ else opts)
      split_ifs with hrange
      · exact ⟨h.ratio, h.accepts, ⟨value, rfl, isPort_of_check (hg hrange) hrange⟩, h.clients⟩
      · exact h
    | wwwRootDir => exact ⟨h.ratio, h.accepts, h.port, h.clients⟩
    | connectionLimit =>
      show CanRun (if 0 < atoi value then _ else opts)
      split_ifs with hpos
      · exact ⟨h.ratio, h.accepts, h.port, Or.inr hpos⟩
      · exact h
    | maxOutstandingAccepts => exact ⟨h.ratio, hg, h.port, h.clients⟩

/-- A checked value outside its range changes nothing. -/
theorem set_of_checked (hg : (Given.valued o value).Checked) (hout : ¬ o.InRange value) :
    o.set value opts = opts := by
  cases o with
  | threadToProcessorRatio =>
    have hvalue : 0 ≤ atoi value := hg
    have hrange : ¬ 1 ≤ atoi value := hout
    have hzero : atoi value = 0 := by omega
    show { opts with soThreadToProcessorRatio := _ } = opts
    simp [atoiOrZero, hzero, Startup.setThreadToProcessorRatio]
  | port => exact if_neg fun hrange => hout (isPort_of_check (hg hrange) hrange)
  | wwwRootDir => exact absurd trivial hout
  | connectionLimit => exact if_neg hout
  | maxOutstandingAccepts => exact absurd hg hout

/-- Any other value is outside its range and makes options with which the server could run into
others. -/
theorem set_of_not_checked (h : CanRun opts) (hg : ¬ (Given.valued o value).Checked) :
    ¬ o.InRange value ∧ o.set value opts ≠ opts := by
  cases o with
  | threadToProcessorRatio =>
    have hvalue : ¬ 0 ≤ atoi value := hg
    have hne : atoi value ≠ 0 := by omega
    refine ⟨fun hrange : 1 ≤ atoi value => by omega, fun heq => ?_⟩
    have hset : (ValueOption.threadToProcessorRatio.set value opts).soThreadToProcessorRatio
        = atoi value := if_pos hne
    have hle := h.ratio
    rw [← heq, hset] at hle
    exact hvalue (by omega)
  | port =>
    have hcheck : ¬ (0 < atoi value ∧ atoi value < 65535 → (readDecimal value).isSome) := hg
    obtain ⟨hrange, hnumeral⟩ := Classical.not_imp.mp hcheck
    have hnot : ¬ IsPort value := by
      rintro ⟨p, hp, -⟩
      exact hnumeral (Option.isSome_iff_exists.mpr ⟨p, hp⟩)
    refine ⟨hnot, fun heq => ?_⟩
    have hset : ValueOption.port.set value opts = { opts with soPort := value } := if_pos hrange
    obtain ⟨s, hs, hport⟩ := h.port
    rw [← heq, hset] at hs
    obtain rfl := Option.some.inj hs
    exact hnot hport
  | wwwRootDir => exact absurd trivial hg
  | connectionLimit => exact absurd trivial hg
  | maxOutstandingAccepts =>
    refine ⟨hg, fun heq => ?_⟩
    have haccepts := h.accepts
    rw [← heq] at haccepts
    exact hg haccepts

/-! ## The whole command line -/

theorem canRun_default : CanRun .default where
  ratio := by decide
  accepts := by decide
  port := ⟨kSVDefaultPort, rfl, 27015, by decide, by decide, by decide⟩
  clients := Or.inl rfl

theorem applyAll_append (gs : List Given) (g : Given) (opts : ServerOpts) :
    applyAll (gs ++ [g]) opts = g.apply (applyAll gs opts) := by
  rw [applyAll, List.foldl_append]
  rfl

theorem canRun_applyAll (hgs : ∀ g ∈ gs, g.Checked) : CanRun (applyAll gs .default) := by
  induction gs using List.reverseRecOn with
  | nil => exact canRun_default
  | append_singleton gs g ih =>
    rw [applyAll_append]
    exact canRun_apply (ih fun g' hg' => hgs g' (List.mem_append_left _ hg')) (hgs g (by simp))

/-- The loop ends with the options of the parts. -/
theorem parsed_iff (hargv : argv.tail = gs.flatMap Given.args) :
    Parsed argv opts ↔ opts = applyAll gs .default := by
  have hparsed : Parsed argv (applyAll gs .default) := by
    cases argv with
    | nil =>
      obtain rfl : gs = [] := by
        cases gs with
        | nil => rfl
        | cons g gs => cases g <;> cases hargv
      exact ⟨1, _, rfl, rfl⟩
    | cons program args =>
      obtain rfl : args = gs.flatMap Given.args := hargv
      exact ⟨_, _, parseLoop_complete program gs, rfl⟩
  constructor
  · rintro ⟨fuel, s, hloop, rfl⟩
    obtain ⟨fuel', s', hloop', hopts⟩ := hparsed
    rw [parseLoop_unique hloop hloop', hopts]
  · rintro rfl
    exact hparsed

/-- The options of a command line that has a program in front of it. -/
theorem parsed_take_iff (hargv : argv ≠ []) :
    Parsed (argv.take 1 ++ gs.flatMap Given.args) opts ↔ opts = applyAll gs .default := by
  obtain ⟨program, args, rfl⟩ := List.exists_cons_of_ne_nil hargv
  exact parsed_iff rfl

/-- A part of a command line has its arguments behind the program. -/
theorem ne_nil_of_mem (hargv : argv.tail = gs.flatMap Given.args) (hg : g ∈ gs) : argv ≠ [] := by
  rintro rfl
  obtain ⟨front, back, rfl⟩ := List.append_of_mem hg
  rw [List.flatMap_append, List.flatMap_cons] at hargv
  cases g <;> simp [Given.args] at hargv

/-- By induction on the front of the command line: its values are checked, so the options after it
let the server run, and an unchecked value would change them. -/
theorem Runnable.checked (h : Runnable argv gs) (hargv : argv.tail = gs.flatMap Given.args)
    {front back : List Given} (hgs : gs = front ++ back) : ∀ g ∈ front, g.Checked := by
  induction front using List.reverseRecOn generalizing back with
  | nil => exact nofun
  | append_singleton front g ih =>
    rw [List.append_assoc, List.singleton_append] at hgs
    have hbefore := ih hgs
    refine List.forall_mem_append.mpr ⟨hbefore, List.forall_mem_singleton.mpr ?_⟩
    cases g with
    | unknown text _ => trivial
    | stray arg _ => trivial
    | valued o value =>
      by_contra hnot
      obtain ⟨hout, hchanged⟩ := set_of_not_checked (canRun_applyAll hbefore) hnot
      have hmem : Given.valued o value ∈ gs := by simp [hgs]
      have hne := ne_nil_of_mem hargv hmem
      obtain ⟨opts, hopts, hopts'⟩ := h.kept front o value back hgs hout
      rw [parsed_take_iff hne] at hopts hopts'
      rw [applyAll_append, hopts] at hopts'
      exact hchanged hopts'.symm

/-- A command line whose options have their values is runnable if and only if the ratios are not
negative, the ports that pass the check are numerals, and the numbers of outstanding accepts are
positive. -/
theorem runnable_iff (hargv : argv.tail = gs.flatMap Given.args) :
    Runnable argv gs ↔ ∀ g ∈ gs, g.Checked := by
  constructor
  · intro h
    exact h.checked hargv (List.append_nil gs).symm
  · intro hgs
    refine ⟨⟨_, (parsed_iff hargv).mpr rfl, canRun_applyAll hgs⟩, ?_⟩
    rintro front o value back rfl hout
    have hmem : Given.valued o value ∈ front ++ .valued o value :: back := by simp
    have hne := ne_nil_of_mem hargv hmem
    refine ⟨applyAll front .default, (parsed_take_iff hne).mpr rfl,
      (parsed_take_iff hne).mpr ?_⟩
    rw [applyAll_append]
    exact (set_of_checked (hgs _ hmem) hout).symm

/-! ## What the options are for -/

/-- The values of the option for the ratio. -/
def ratios (gs : List Given) : List ℤ :=
  gs.filterMap fun
    | .valued .threadToProcessorRatio value => some (atoi value)
    | _ => none

theorem ratio_apply (g : Given) (opts : ServerOpts) :
    (g.apply opts).soThreadToProcessorRatio =
      (ratios [g]).foldl Startup.setThreadToProcessorRatio opts.soThreadToProcessorRatio := by
  cases g with
  | unknown text _ => rfl
  | stray arg _ => rfl
  | valued o value =>
    cases o with
    | threadToProcessorRatio => rfl
    | port =>
      show (if 0 < atoi value ∧ atoi value < 65535 then _ else opts).soThreadToProcessorRatio = _
      split_ifs <;> rfl
    | wwwRootDir => rfl
    | connectionLimit =>
      show (if 0 < atoi value then _ else opts).soThreadToProcessorRatio = _
      split_ifs <;> rfl
    | maxOutstandingAccepts => rfl

theorem ratio_applyAll (gs : List Given) (opts : ServerOpts) :
    (applyAll gs opts).soThreadToProcessorRatio =
      (ratios gs).foldl Startup.setThreadToProcessorRatio opts.soThreadToProcessorRatio := by
  induction gs generalizing opts with
  | nil => rfl
  | cons g gs ih =>
    have hsplit : ratios (g :: gs) = ratios [g] ++ ratios gs :=
      @List.filterMap_append _ _ [g] gs _
    rw [hsplit, List.foldl_append, ← ratio_apply]
    exact ih (g.apply opts)

/-- The ratio is one for which `server_init` has to be prepared. -/
theorem accepted_ratio (gs : List Given) :
    Startup.Accepted (applyAll gs .default).soThreadToProcessorRatio := by
  refine ⟨ratios gs, ?_, (ratio_applyAll gs .default).symm⟩
  intro x hx
  obtain ⟨g, -, hg⟩ := List.mem_filterMap.mp hx
  split at hg
  · cases hg
    exact atoi_bounds _
  · cases hg

end parts

/-- With options with which the server cannot run because of the outstanding accepts it has never
a pending `AcceptEx`. -/
theorem no_accepts {m : ℤ} {svSock : Socket} {n : ℕ} {tr : List (State × Action)} {s : State}
    (hm : m < 1) (hrun : ServerRun m svSock n tr s) : s.pendingAccepts = 0 := by
  have hle : s.pendingAccepts ≤ s.slots := by
    rw [State.slots, State.queuedSlots]
    omega
  have hslots := hrun.limitOk.slots
  have hmax := hrun.limitOk.counted_le
  omega

/-- A port, as a numeral. -/
theorem runnable_port : Runnable [cstr "server", cstr "-port", cstr "8080"]
    [.valued .port (cstr "8080")] :=
  (runnable_iff rfl).mpr (List.forall_mem_singleton.mpr fun _ => by decide)

/-- No outstanding accepts are asked for, and the option is accepted. -/
theorem accepts_nothing : ¬ ∀ (argv : List (List UInt8)) (gs : List Given),
    argv.tail = gs.flatMap Given.args → Runnable argv gs := by
  intro h
  have hargv : [cstr "server", cstr "-max-outstanding-acepts", cstr "0"].tail
      = [Given.valued .maxOutstandingAccepts (cstr "0")].flatMap Given.args := rfl
  obtain ⟨opts, hparsed, hcan⟩ := (h _ _ hargv).canRun
  obtain rfl := (parsed_iff hargv).mp hparsed
  exact absurd hcan.accepts (by decide)

end AioServer.Windows.CommandLine
