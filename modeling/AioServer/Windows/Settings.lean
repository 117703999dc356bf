import AioServer.Windows.Configuration

/-!
# The Windows server: what a command line sets

The loop goes through the arguments once and overwrites the options as it goes. What is left in
the end is a table: for each option the last value that it takes, or else its default.

* `settings`: the table; `parsed_iff_settings`: the loop computes it;
* `Expressible`: the options that some command line leads to;
* `render`: a command line for them; `expressible_iff`: the loop reads it back.
-/

namespace AioServer.Windows.CommandLine

open Lib

/-! ## The table -/

/-- The check of an option for a value. -/
def ValueOption.takes (value : List UInt8) : ValueOption → Bool
  | .threadToProcessorRatio => atoi value ≠ 0
  | .port => 0 < atoi value ∧ atoi value < 65535
  | .connectionLimit => 0 < atoi value
  | .wwwRootDir | .maxOutstandingAccepts => true

/-- The value of the option in a part of the command line, if the option takes it. -/
def Given.taken (o : ValueOption) : Given → Option (List UInt8)
  | .valued o' value => if o' = o ∧ o.takes value then some value else none
  | _ => none

/-- The last value on the command line that the option takes. -/
def lastTaken (gs : List Given) (o : ValueOption) : Option (List UInt8) :=
  (gs.filterMap (Given.taken o)).getLast?

/-- Each option by itself. -/
def settings (gs : List Given) (opts : ServerOpts) : ServerOpts where
  soThreadToProcessorRatio :=
    ((lastTaken gs .threadToProcessorRatio).map atoi).getD opts.soThreadToProcessorRatio
  soWwwRootdir := (lastTaken gs .wwwRootDir).or opts.soWwwRootdir
  soMaxClients := ((lastTaken gs .connectionLimit).map atoi).getD opts.soMaxClients
  soPort := (lastTaken gs .port).or opts.soPort
  soMaxOutstandingAccepts :=
    ((lastTaken gs .maxOutstandingAccepts).map atoi).getD opts.soMaxOutstandingAccepts

section table

variable {gs : List Given} {g : Given} {o : ValueOption} {value : List UInt8} {opts : ServerOpts}

theorem lastTaken_snoc (gs : List Given) (g : Given) (o : ValueOption) :
    lastTaken (gs ++ [g]) o = (g.taken o).or (lastTaken gs o) := by
  unfold lastTaken
  rw [List.filterMap_append]
  cases h : g.taken o with
  | none => simp [h]
  | some value => simp [h]

theorem taken_self (h : o.takes value) : (Given.valued o value).taken o = some value :=
  if_pos ⟨rfl, h⟩

theorem taken_refused (h : o.takes value = false) (o' : ValueOption) :
    (Given.valued o value).taken o' = none := by
  refine if_neg ?_
  rintro ⟨rfl, htakes⟩
  rw [h] at htakes
  cases htakes

theorem taken_other {o' : ValueOption} (h : o ≠ o') : (Given.valued o value).taken o' = none :=
  if_neg fun hboth => h hboth.1

/-- A part that no option takes changes nothing. -/
theorem settings_snoc_none (h : ∀ o, g.taken o = none) :
    settings (gs ++ [g]) opts = settings gs opts := by
  unfold settings
  simp only [lastTaken_snoc, h, Option.none_or]

/-- An option changes its own setting. -/
theorem settings_snoc_valued (o : ValueOption) (value : List UInt8) :
    settings (gs ++ [.valued o value]) opts = o.set (some value) (settings gs opts) := by
  cases htakes : o.takes value with
  | false =>
    rw [settings_snoc_none (taken_refused htakes)]
    cases o with
    | threadToProcessorRatio =>
      have hzero : atoi value = 0 := by simpa [ValueOption.takes] using htakes
      simp [ValueOption.set, atoiOrZero, hzero, Startup.setThreadToProcessorRatio]
    | port =>
      have hrange : ¬ (0 < atoi value ∧ atoi value < 65535) := by
        simpa [ValueOption.takes] using htakes
      exact (if_neg hrange).symm
    | connectionLimit =>
      have hpos : ¬ 0 < atoi value := by simpa [ValueOption.takes] using htakes
      exact (if_neg hpos).symm
    | wwwRootDir => cases htakes
    | maxOutstandingAccepts => cases htakes
  | true =>
    have hself := taken_self htakes
    unfold settings
    cases o with
    | threadToProcessorRatio =>
      have hne : atoi value ≠ 0 := by simpa [ValueOption.takes] using htakes
      simp [lastTaken_snoc, hself, taken_other, ValueOption.set, atoiOrZero, hne,
        Startup.setThreadToProcessorRatio]
    | port =>
      have hrange : 0 < atoi value ∧ atoi value < 65535 := by
        simpa [ValueOption.takes] using htakes
      simp [lastTaken_snoc, hself, taken_other, ValueOption.set, atoiOrZero, hrange]
    | connectionLimit =>
      have hpos : 0 < atoi value := by simpa [ValueOption.takes] using htakes
      simp [lastTaken_snoc, hself, taken_other, ValueOption.set, atoiOrZero, hpos]
    | wwwRootDir => simp [lastTaken_snoc, hself, taken_other, ValueOption.set]
    | maxOutstandingAccepts =>
      simp [lastTaken_snoc, hself, taken_other, ValueOption.set, atoiOrZero]

/-- The options that the parts leave, one after the other. -/
theorem applyAll_eq_settings (gs : List Given) (opts : ServerOpts) :
    applyAll gs opts = settings gs opts := by
  induction gs using List.reverseRecOn with
  | nil => simp [applyAll, settings, lastTaken]
  | append_singleton gs g ih =>
    rw [applyAll_append, ih]
    cases g with
    | valued o value => exact (settings_snoc_valued o value).symm
    | unknown text h => exact (settings_snoc_none fun _ => rfl).symm
    | stray arg h => exact (settings_snoc_none fun _ => rfl).symm

end table

/-- The loop computes the table, for every command line whose options have their values. -/
theorem parsed_iff_settings {argv : List (List UInt8)} {gs : List Given} {opts : ServerOpts}
    (hargv : argv.tail = gs.flatMap Given.args) :
    Parsed argv opts ↔ opts = settings gs .default := by
  rw [parsed_iff hargv, applyAll_eq_settings]

/-- The second root directory counts, and the first port, since the second one is not taken. -/
theorem parsed_iff_settings_last : Parsed [cstr "server", cstr "-port", cstr "80", cstr "-x",
    cstr "-www-root-dir", cstr "a", cstr "-port", cstr "0", cstr "-www-root-dir", cstr "b"]
    { ServerOpts.default with soWwwRootdir := some (cstr "b"), soPort := some (cstr "80") } := by
  have hx : ∀ o : ValueOption, cstr "x" ≠ o.name := by
    intro o
    cases o <;> decide
  exact (@parsed_iff_settings _ [.valued .port (cstr "80"), .unknown (cstr "x") hx,
    .valued .wwwRootDir (cstr "a"), .valued .port (cstr "0"), .valued .wwwRootDir (cstr "b")] _
    rfl).mpr rfl

/-! ## All settings -/

/-- Options that some command line leads to. -/
structure Expressible (opts : ServerOpts) : Prop where
  ratio : Startup.IsInt opts.soThreadToProcessorRatio ∧ opts.soThreadToProcessorRatio ≠ 0
  root : opts.soWwwRootdir.isSome
  clients : opts.soMaxClients = kSVDefaultUnlimitedConnections ∨
    0 < opts.soMaxClients ∧ opts.soMaxClients < 2 ^ 31
  port : ∃ s, opts.soPort = some s ∧ 0 < atoi s ∧ atoi s < 65535
  accepts : Startup.IsInt opts.soMaxOutstandingAccepts

/-- A command line for the options. No limit is written by not writing it. -/
def render (opts : ServerOpts) : List Given :=
  [.valued .threadToProcessorRatio (formatInt opts.soThreadToProcessorRatio),
    .valued .wwwRootDir (opts.soWwwRootdir.getD []), .valued .port (opts.soPort.getD []),
    .valued .maxOutstandingAccepts (formatInt opts.soMaxOutstandingAccepts)] ++
    if opts.soMaxClients = kSVDefaultUnlimitedConnections then []
    else [.valued .connectionLimit (formatInt opts.soMaxClients)]

section all

variable {gs : List Given} {g : Given} {opts : ServerOpts}

theorem expressible_default : Expressible .default where
  ratio := by decide
  root := rfl
  clients := Or.inl rfl
  port := ⟨kSVDefaultPort, rfl, by decide⟩
  accepts := by decide

theorem expressible_apply (h : Expressible opts) (g : Given) : Expressible (g.apply opts) := by
  cases g with
  | unknown text _ => exact h
  | stray arg _ => exact h
  | valued o value =>
    have hint : Startup.IsInt (atoi value) := atoi_bounds value
    cases o with
    | threadToProcessorRatio =>
      refine ⟨?_, h.root, h.clients, h.port, h.accepts⟩
      show Startup.IsInt (Startup.setThreadToProcessorRatio _ (atoi value)) ∧
        Startup.setThreadToProcessorRatio _ (atoi value) ≠ 0
      unfold Startup.setThreadToProcessorRatio
      split_ifs with hne
      · exact ⟨hint, hne⟩
      · exact h.ratio
    | port =>
      show Expressible (if 0 < atoi value ∧ atoi value < 65535 then _ else opts)
      split_ifs with hrange
      · exact ⟨h.ratio, h.root, h.clients, ⟨value, rfl, hrange⟩, h.accepts⟩
      · exact h
    | wwwRootDir => exact ⟨h.ratio, rfl, h.clients, h.port, h.accepts⟩
    | connectionLimit =>
      show Expressible (if 0 < atoi value then _ else opts)
      split_ifs with hpos
      · exact ⟨h.ratio, h.root, Or.inr ⟨hpos, hint.2⟩, h.port, h.accepts⟩
      · exact h
    | maxOutstandingAccepts => exact ⟨h.ratio, h.root, h.clients, h.port, hint⟩

theorem expressible_applyAll (gs : List Given) : Expressible (applyAll gs .default) := by
  induction gs using List.reverseRecOn with
  | nil => exact expressible_default
  | append_singleton gs g ih =>
    rw [applyAll_append]
    exact expressible_apply ih g

/-- Rendered options are read back. -/
theorem applyAll_render (h : Expressible opts) : applyAll (render opts) .default = opts := by
  obtain ⟨ratio, root, clients, port, accepts⟩ := opts
  obtain ⟨⟨hratio, hne⟩, hroot, hclients, ⟨p, rfl, hport⟩, haccepts⟩ := h
  dsimp only at hratio hne hroot hclients haccepts
  obtain ⟨r, rfl⟩ := Option.isSome_iff_exists.mp hroot
  have hratio' := atoi_formatInt hratio.1 hratio.2
  have haccepts' := atoi_formatInt haccepts.1 haccepts.2
  unfold render
  by_cases hfree : clients = kSVDefaultUnlimitedConnections
  · subst hfree
    simp [applyAll, Given.apply, ValueOption.set, atoiOrZero, hratio', haccepts', hne, hport,
      Startup.setThreadToProcessorRatio, ServerOpts.default]
  · obtain ⟨hpos, hlt⟩ := hclients.resolve_left hfree
    have hclients' := atoi_formatInt (show -2 ^ 31 ≤ clients by omega) hlt
    simp [applyAll, Given.apply, ValueOption.set, atoiOrZero, hratio', haccepts', hclients', hne,
      hport, hpos, hfree, Startup.setThreadToProcessorRatio]

end all

/-- The options that command lines lead to, and a command line for each of them. -/
theorem expressible_iff (program : List UInt8) (opts : ServerOpts) :
    (Expressible opts ↔ ∃ gs : List Given, Parsed (program :: gs.flatMap Given.args) opts) ∧
      (Expressible opts → Parsed (program :: (render opts).flatMap Given.args) opts) := by
  have hrender : Expressible opts → Parsed (program :: (render opts).flatMap Given.args) opts :=
    fun h => (parsed_iff rfl).mpr (applyAll_render h).symm
  refine ⟨⟨fun h => ⟨_, hrender h⟩, ?_⟩, hrender⟩
  rintro ⟨gs, hparsed⟩
  rw [(parsed_iff rfl).mp hparsed]
  exact expressible_applyAll gs

end AioServer.Windows.CommandLine
