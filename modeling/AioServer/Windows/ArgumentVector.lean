import AioServer.Windows.Options

/-!
# The Windows server: the loop stays in the argument vector

An argument without a dash is reported with `argv[argc]`, and an option at the end takes that
NULL as its value. Nothing else is read behind the arguments.

* `InVector`: what the loop may read, and what an incomplete option may do;
* `inVector_of_given`, `given_of_inVector`: the command lines for which it keeps to that;
* `staysInVector_iff`: each argument is an option with a value, that value, or another word with
  a dash.
-/

namespace AioServer.Windows.CommandLine

open Lib

/-! ## What the loop should do -/

/-- The setting of the option is the same. -/
def ValueOption.SameSetting (a b : ServerOpts) : ValueOption → Prop
  | .threadToProcessorRatio => a.soThreadToProcessorRatio = b.soThreadToProcessorRatio
  | .port => a.soPort = b.soPort
  | .wwwRootDir => a.soWwwRootdir = b.soWwwRootdir
  | .connectionLimit => a.soMaxClients = b.soMaxClients
  | .maxOutstandingAccepts => a.soMaxOutstandingAccepts = b.soMaxOutstandingAccepts

/-- The string is an argument behind the name of the program, perhaps from behind its dash. -/
def Access.Inside (argv : List (List UInt8)) (c : Access) : Prop :=
  0 < c.index ∧ c.index < argv.length ∧ ∃ arg, argv[c.index]? = some arg ∧
    (c.string = some arg ∨ arg.head? = some 45 ∧ c.string = some arg.tail)

/-- Only arguments are used; a rejected argument is the one that is reported; and an option in
last position leaves its setting alone. -/
structure InVector (argv : List (List UInt8)) (s : Parsing) : Prop where
  inside : ∀ c ∈ s.accesses, c.Inside argv
  reported : ∀ c ∈ s.accesses, c.use = .rejected → c.index = c.i
  last : ∀ c ∈ s.accesses, c.use = .first → c.index + 1 = argv.length →
    ∀ o : ValueOption, c.string = some (45 :: o.name) → o.SameSetting s.svOptions c.svOptions

/-- The loop ends, and has kept to that. -/
def StaysInVector (argv : List (List UInt8)) : Prop :=
  ∃ fuel s, parseLoop fuel (.start argv) = some s ∧ InVector argv s

/-- A word without a dash. -/
def Given.IsStray : Given → Prop
  | .stray _ _ => True
  | _ => False

/-! ## One part of the command line -/

section parts

variable {argv front rest : List (List UInt8)} {opts : ServerOpts} {c : Access} {n : ℕ}

theorem mem_strcmps {o : ValueOption} {string : Option (List UInt8)}
    (h : c ∈ o.strcmps n string opts) :
    c.index = n ∧ c.string = string ∧ c.use ≠ .first ∧ c.use ≠ .rejected := by
  obtain ⟨name, -, rfl⟩ := List.mem_map.mp h
  refine ⟨rfl, rfl, ?_, ?_⟩
  · rintro ⟨⟩
  · rintro ⟨⟩

/-- A value is converted or copied, or both. -/
theorem uses_eq (o : ValueOption) (value : Option (List UInt8)) :
    o.uses value = [.atoi] ∨ o.uses value = [.strdup] ∨ o.uses value = [.atoi, .strdup] := by
  cases o with
  | port =>
    by_cases hrange : atoiOrZero value > 0 ∧ atoiOrZero value < 65535
    · exact Or.inr (Or.inr (if_pos hrange))
    · exact Or.inl (if_neg hrange)
  | wwwRootDir => exact Or.inr (Or.inl rfl)
  | threadToProcessorRatio => exact Or.inl rfl
  | connectionLimit => exact Or.inl rfl
  | maxOutstandingAccepts => exact Or.inl rfl

theorem mem_valueUses {o : ValueOption} {value : Option (List UInt8)}
    (h : c ∈ o.valueUses n value opts) :
    c.index = n ∧ c.string = value ∧ c.use ≠ .first ∧ c.use ≠ .rejected := by
  obtain ⟨use, huse, rfl⟩ := List.mem_map.mp h
  refine ⟨rfl, rfl, ?_⟩
  rcases uses_eq o value with h | h | h
  all_goals
    rw [h] at huse
    constructor
    · rintro rfl
      simp at huse
    · rintro rfl
      simp at huse

/-- There is such a use. -/
theorem exists_valueUse {o : ValueOption} {value : Option (List UInt8)} :
    ∃ c ∈ o.valueUses n value opts, c.index = n := by
  have hne : o.uses value ≠ [] := by
    rcases uses_eq o value with h | h | h
    all_goals
      rw [h]
      exact List.cons_ne_nil _ _
  obtain ⟨use, uses, hcons⟩ := List.exists_cons_of_ne_nil hne
  refine ⟨⟨use, n, n, value, opts⟩, ?_, rfl⟩
  rw [ValueOption.valueUses, hcons]
  exact List.mem_cons_self

/-- What the loop may do with a part of a command line that has its dash. -/
structure Access.Fine (argv : List (List UInt8)) (c : Access) : Prop where
  inside : c.Inside argv
  reported : c.use = .rejected → c.index = c.i
  last : c.use = .first → c.index + 1 = argv.length →
    ∀ o : ValueOption, c.string ≠ some (45 :: o.name)

theorem inside_of_entry {arg : List UInt8} (hpos : 0 < c.index) (harg : argv[c.index]? = some arg)
    (hs : c.string = some arg ∨ arg.head? = some 45 ∧ c.string = some arg.tail) :
    c.Inside argv := by
  obtain ⟨hlt, -⟩ := List.getElem?_eq_some_iff.mp harg
  exact ⟨hpos, hlt, arg, harg, hs⟩

theorem fine_of_given {g : Given} (hg : ¬ g.IsStray) (hargv : argv = front ++ (g.args ++ rest))
    (hfront : 0 < front.length) (hc : c ∈ g.accesses front.length argv.length opts) :
    c.Fine argv := by
  cases g with
  | stray arg h => exact absurd trivial hg
  | valued o value =>
    have hname : argv[front.length]? = some (45 :: o.name) := by simp [hargv, Given.args]
    have hvalue : argv[front.length + 1]? = some value := by simp [hargv, Given.args]
    rcases List.mem_cons.mp hc with rfl | hc
    · refine ⟨inside_of_entry hfront hname (Or.inl rfl), by simp, ?_⟩
      -- the value is behind the option
      intro _ hlast
      obtain ⟨hlt, -⟩ := List.getElem?_eq_some_iff.mp hvalue
      exact absurd hlast (Nat.ne_of_lt hlt)
    rcases List.mem_append.mp hc with hc | hc
    · obtain ⟨hindex, hstring, hfirst, hrejected⟩ := mem_strcmps hc
      refine ⟨?_, fun h => absurd h hrejected, fun h => absurd h hfirst⟩
      rw [← hindex] at hfront hname
      exact inside_of_entry hfront hname (Or.inr ⟨rfl, hstring⟩)
    · obtain ⟨hindex, hstring, hfirst, hrejected⟩ := mem_valueUses hc
      refine ⟨?_, fun h => absurd h hrejected, fun h => absurd h hfirst⟩
      rw [← hindex] at hvalue
      exact inside_of_entry (by omega) hvalue (Or.inl hstring)
  | unknown text h =>
    have htext : argv[front.length]? = some (45 :: text) := by simp [hargv, Given.args]
    rcases List.mem_cons.mp hc with rfl | hc
    · refine ⟨inside_of_entry hfront htext (Or.inl rfl), by simp, ?_⟩
      intro _ _ o hname
      exact h o (List.cons.inj (Option.some.inj hname)).2
    rcases List.mem_append.mp hc with hc | hc
    · obtain ⟨hindex, hstring, hfirst, hrejected⟩ := mem_strcmps hc
      refine ⟨?_, fun h => absurd h hrejected, fun h => absurd h hfirst⟩
      rw [← hindex] at hfront htext
      exact inside_of_entry hfront htext (Or.inr ⟨rfl, hstring⟩)
    · obtain rfl := List.mem_singleton.mp hc
      exact ⟨inside_of_entry hfront htext (Or.inr ⟨rfl, rfl⟩), fun _ => rfl,
        by simp⟩

/-- A stray word is reported with the NULL behind the arguments. -/
theorem stray_accesses {arg : List UInt8} {h : arg.head? ≠ some 45} :
    ∃ c ∈ (Given.stray arg h).accesses n argv.length opts, ¬ c.Inside argv := by
  refine ⟨⟨.rejected, n, argv.length, none, opts⟩, by simp [Given.accesses], ?_⟩
  rintro ⟨-, hlt, -⟩
  exact Nat.lt_irrefl _ hlt

/-! ## The whole command line -/

theorem fine_of_givens {gs : List Given} (hgs : ∀ g ∈ gs, ¬ g.IsStray)
    (hargv : argv = front ++ gs.flatMap Given.args) (hfront : 0 < front.length)
    (hc : c ∈ allAccesses gs front.length argv.length opts) : c.Fine argv := by
  induction gs generalizing front opts with
  | nil => cases hc
  | cons g gs ih =>
    obtain ⟨hg, hrest⟩ := List.forall_mem_cons.mp hgs
    rw [List.flatMap_cons] at hargv
    rcases List.mem_append.mp hc with hc | hc
    · exact fine_of_given hg hargv hfront hc
    · have hlen : front.length + g.args.length = (front ++ g.args).length := by
        rw [List.length_append]
      rw [hlen] at hc
      exact ih hrest (by rw [hargv, List.append_assoc]) (by omega) hc

/-- With a stray word among the parts not everything is inside. -/
theorem exists_outside {gs : List Given} {g : Given} (hg : g ∈ gs) (hstray : g.IsStray) :
    ∃ c ∈ allAccesses gs n argv.length opts, ¬ c.Inside argv := by
  induction gs generalizing n opts with
  | nil => cases hg
  | cons g' gs ih =>
    rcases List.mem_cons.mp hg with rfl | hg
    · cases g with
      | stray arg h =>
        obtain ⟨c, hc, hout⟩ := @stray_accesses argv opts n arg h
        exact ⟨c, List.mem_append_left _ hc, hout⟩
      | valued o value => cases hstray
      | unknown text h => cases hstray
    · obtain ⟨c, hc, hout⟩ := ih hg
      exact ⟨c, List.mem_append_right _ hc, hout⟩

/-- The missing value is looked for behind its option. -/
theorem exists_danglingAccess (o : ValueOption) (n : ℕ) (opts : ServerOpts) :
    ∃ c ∈ danglingAccesses o n opts, c.index = n + 1 := by
  obtain ⟨c, hc, hindex⟩ := @exists_valueUse opts (n + 1) o none
  exact ⟨c, List.mem_cons_of_mem _ (List.mem_append_right _ hc), hindex⟩

theorem inVector_of_given {program : List UInt8} {gs : List Given}
    (hgs : ∀ g ∈ gs, ¬ g.IsStray) : StaysInVector (program :: gs.flatMap Given.args) := by
  refine ⟨_, _, parseLoop_complete program gs, ?_⟩
  have hfine : ∀ c ∈ allAccesses gs 1 (program :: gs.flatMap Given.args).length .default,
      c.Fine (program :: gs.flatMap Given.args) :=
    fun c hc => @fine_of_givens _ [program] _ c gs hgs rfl Nat.one_pos hc
  exact ⟨fun c hc => (hfine c hc).inside, fun c hc => (hfine c hc).reported,
    fun c hc hfirst hlast o ho => absurd ho ((hfine c hc).last hfirst hlast o)⟩

/-- The loop reads nothing behind the arguments, reports the argument that it rejects, and leaves
the setting of an option in last position alone, if and only if the arguments are options with
their values, and other words with a dash. -/
theorem staysInVector_iff {argv : List (List UInt8)} : StaysInVector argv ↔
    ∃ gs : List Given, argv.tail = gs.flatMap Given.args ∧ ∀ g ∈ gs, ¬ g.IsStray := by
  cases argv with
  | nil =>
    refine iff_of_true ⟨1, ⟨1, [], .default, []⟩, rfl, ?_⟩ ⟨[], rfl, nofun⟩
    have hnone : ∀ c : Access, c ∉ ([] : List Access) := fun _ => List.not_mem_nil
    exact ⟨fun c hc => absurd hc (hnone c), fun c hc => absurd hc (hnone c),
      fun c hc => absurd hc (hnone c)⟩
  | cons program args =>
    obtain ⟨gs, last, hargs⟩ := exists_given args
    constructor
    · rintro ⟨fuel, s, hloop, hin⟩
      cases last with
      | none =>
        obtain rfl : args = gs.flatMap Given.args := by simpa using hargs
        refine ⟨gs, rfl, fun g hg hstray => ?_⟩
        obtain rfl := parseLoop_unique hloop (parseLoop_complete program gs)
        obtain ⟨c, hc, hout⟩ := exists_outside hg hstray
        exact hout (hin.inside c hc)
      | some o =>
        -- the value that is missing is the NULL behind the arguments
        obtain rfl : args = gs.flatMap Given.args ++ [45 :: o.name] := by simpa using hargs
        obtain rfl := parseLoop_unique hloop (parseLoop_dangling program gs o)
        obtain ⟨c, hc, hindex⟩ := exists_danglingAccess o ((gs.flatMap Given.args).length + 1)
          (applyAll gs .default)
        have hlt := (hin.inside c (List.mem_append_right _ hc)).2.1
        rw [hindex, List.length_cons, List.length_append] at hlt
        exact absurd hlt (Nat.lt_irrefl _)
    · rintro ⟨gs, hgs, hdash⟩
      obtain rfl : args = gs.flatMap Given.args := hgs
      exact inVector_of_given hdash

end parts

/-- The only argument has no dash: the error message is given `argv[argc]`. -/
theorem reports_behind_vector : ¬ ∀ argv : List (List UInt8), StaysInVector argv := by
  intro h
  obtain ⟨fuel, s, hloop, hin⟩ := h [cstr "server", cstr "help"]
  obtain rfl := parseLoop_unique hloop
    (parseLoop_complete (cstr "server") [.stray (cstr "help") (by decide)])
  have hstray : (Given.stray (cstr "help") (by decide)).IsStray := trivial
  obtain ⟨c, hc, hout⟩ := exists_outside List.mem_cons_self hstray
  exact hout (hin.inside c hc)

end AioServer.Windows.CommandLine
