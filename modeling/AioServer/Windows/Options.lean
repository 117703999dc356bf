import AioServer.Lib.Atoi
import AioServer.Windows.WorkerArray

/-!
# The Windows server: the options

The loop of `server_start_and_run` over the arguments. It goes from one option to the next in
its head and from an option to its value in the branches, and moves the entries of `argv` behind
their dash. What it hands to the C library is recorded, with the place in `argv` where it is from.

* `parseArg`, `parseLoop`: the loop;
* `Given`: a part of the command line, an option with its value or something else;
* `exists_given`: every command line has these parts, and at its end perhaps an option that
  lacks its value;
* `parseArg_given`, `parseLoop_given`: what the loop does with them;
* `parseLoop_ends`: it ends for every command line.
-/

namespace AioServer.Windows.CommandLine

open Lib

/-! ## The code -/

/-- `struct server_opts`; `none` for NULL. -/
structure ServerOpts where
  soThreadToProcessorRatio : ℤ
  soWwwRootdir : Option (List UInt8)
  soMaxClients : ℤ
  soPort : Option (List UInt8)
  soMaxOutstandingAccepts : ℤ
deriving DecidableEq, Repr

/-- `kSVDefaultWWWRootDir`. -/
def kSVDefaultWWWRootDir : List UInt8 := cstr "C:/temp/wwwroot"

/-- `kSVDefaultUnlimitedConnections`. -/
def kSVDefaultUnlimitedConnections : ℤ := -1

/-- `kSVDefaultPort`. -/
def kSVDefaultPort : List UInt8 := cstr "27015"

/-- `_strdup`, with the memory that it needs. -/
def strdup (s : Option (List UInt8)) : Option (List UInt8) := s

/-- `atoi` of the C runtime, which reports NULL as an invalid parameter and returns 0 for it. -/
def atoiOrZero : Option (List UInt8) → ℤ
  | none => 0
  | some s => atoi s

/-- The options in front of the loop. -/
def ServerOpts.default : ServerOpts where
  soThreadToProcessorRatio := Startup.kSVDefaultThreadToProcessorRatio
  soWwwRootdir := strdup kSVDefaultWWWRootDir
  soMaxClients := kSVDefaultUnlimitedConnections
  soPort := strdup kSVDefaultPort
  soMaxOutstandingAccepts := 64

/-- What is done with a string: the first character is looked at, or it is handed to a function;
`rejected` is `fprintf_s` for an argument that is not recognized. -/
inductive Use
  | first
  | strcmp (name : List UInt8)
  | atoi
  | strdup
  | rejected
deriving DecidableEq, Repr

/-- One use: the variable `i`, the entry of `argv` and the string there (`none` for NULL), and the
options at that time. -/
structure Access where
  use : Use
  i : ℕ
  index : ℕ
  string : Option (List UInt8)
  svOptions : ServerOpts
deriving DecidableEq, Repr

/-- The state of the loop; behind the entries of `argv` there is NULL. -/
structure Parsing where
  i : ℕ
  argv : List (List UInt8)
  svOptions : ServerOpts
  accesses : List Access
deriving DecidableEq, Repr

namespace Parsing

/-- `argv[i]` -/
def string (s : Parsing) : Option (List UInt8) := s.argv[s.i]?

/-- The use of `argv[index]`. -/
def access (s : Parsing) (use : Use) (index : ℕ) : Parsing :=
  { s with accesses := s.accesses ++ [⟨use, s.i, index, s.argv[index]?, s.svOptions⟩] }

/-- The use of `argv[++i]`. -/
def accessNext (s : Parsing) (use : Use) : Parsing := { s with i := s.i + 1 }.access use (s.i + 1)

/-- `++argv[i]` -/
def skipDash (s : Parsing) : Parsing := { s with argv := s.argv.modify s.i List.tail }

end Parsing

/-- The names of the options. -/
def threadToProcessorRatio : List UInt8 := cstr "thread-to-processor-ratio"
def port : List UInt8 := cstr "port"
def wwwRootDir : List UInt8 := cstr "www-root-dir"
def connectionLimit : List UInt8 := cstr "connection-limit"
def maxOutstandingAcepts : List UInt8 := cstr "max-outstanding-acepts"

/-- The comparisons with the names, and the branches. -/
def parseOption (s : Parsing) : Parsing :=
  let s := s.access (.strcmp threadToProcessorRatio) s.i
  if s.string = some threadToProcessorRatio then
    let s := s.accessNext .atoi
    let tpRatio := atoiOrZero s.string
    { s with svOptions.soThreadToProcessorRatio :=
        Startup.setThreadToProcessorRatio s.svOptions.soThreadToProcessorRatio tpRatio }
  else
    let s := s.access (.strcmp port) s.i
    if s.string = some port then
      let s := s.accessNext .atoi
      let port := atoiOrZero s.string
      if port > 0 ∧ port < 65535 then
        let s := s.access .strdup s.i
        { s with svOptions.soPort := strdup s.string }
      else s
    else
      let s := s.access (.strcmp wwwRootDir) s.i
      if s.string = some wwwRootDir then
        let s := s.accessNext .strdup
        { s with svOptions.soWwwRootdir := strdup s.string }
      else
        let s := s.access (.strcmp connectionLimit) s.i
        if s.string = some connectionLimit then
          let s := s.accessNext .atoi
          let connLimit := atoiOrZero s.string
          if connLimit > 0 then { s with svOptions.soMaxClients := connLimit } else s
        else
          let s := s.access (.strcmp maxOutstandingAcepts) s.i
          if s.string = some maxOutstandingAcepts then
            let s := s.accessNext .atoi
            { s with svOptions.soMaxOutstandingAccepts := atoiOrZero s.string }
          else s.access .rejected s.i

/-- The body of the loop. -/
def parseArg (s : Parsing) : Parsing :=
  let s := s.access .first s.i
  if s.string.bind List.head? ≠ some 45 then s.access .rejected s.argv.length
  else parseOption s.skipDash

/-- The loop, for at most `fuel` rounds. -/
def parseLoop : ℕ → Parsing → Option Parsing
  | 0, _ => none
  | fuel + 1, s =>
    let s := { s with i := s.i + 1 }
    if s.i < s.argv.length then parseLoop fuel (parseArg s) else some s

/-- The state in front of the loop. -/
def Parsing.start (argv : List (List UInt8)) : Parsing := ⟨0, argv, .default, []⟩

/-! ## Command lines -/

/-- The options with a value. -/
inductive ValueOption
  | threadToProcessorRatio
  | port
  | wwwRootDir
  | connectionLimit
  | maxOutstandingAccepts
deriving DecidableEq, Repr

/-- The name of the option, as it is compared. -/
def ValueOption.name : ValueOption → List UInt8
  | .threadToProcessorRatio => CommandLine.threadToProcessorRatio
  | .port => CommandLine.port
  | .wwwRootDir => CommandLine.wwwRootDir
  | .connectionLimit => CommandLine.connectionLimit
  | .maxOutstandingAccepts => maxOutstandingAcepts

/-- The options after one with this value; `none` for NULL. -/
def ValueOption.set (o : ValueOption) (value : Option (List UInt8)) (opts : ServerOpts) :
    ServerOpts :=
  match o with
  | .threadToProcessorRatio =>
    { opts with soThreadToProcessorRatio :=
        Startup.setThreadToProcessorRatio opts.soThreadToProcessorRatio (atoiOrZero value) }
  | .port =>
    if atoiOrZero value > 0 ∧ atoiOrZero value < 65535 then { opts with soPort := value } else opts
  | .wwwRootDir => { opts with soWwwRootdir := value }
  | .connectionLimit =>
    if atoiOrZero value > 0 then { opts with soMaxClients := atoiOrZero value } else opts
  | .maxOutstandingAccepts => { opts with soMaxOutstandingAccepts := atoiOrZero value }

/-- The names with which an option is compared. -/
def ValueOption.comparedWith : ValueOption → List (List UInt8)
  | .threadToProcessorRatio => [CommandLine.threadToProcessorRatio]
  | .port => [CommandLine.threadToProcessorRatio, CommandLine.port]
  | .wwwRootDir => [CommandLine.threadToProcessorRatio, CommandLine.port, CommandLine.wwwRootDir]
  | .connectionLimit =>
    [CommandLine.threadToProcessorRatio, CommandLine.port, CommandLine.wwwRootDir,
      CommandLine.connectionLimit]
  | .maxOutstandingAccepts =>
    [CommandLine.threadToProcessorRatio, CommandLine.port, CommandLine.wwwRootDir,
      CommandLine.connectionLimit, maxOutstandingAcepts]

/-- What is done with the value. -/
def ValueOption.uses (value : Option (List UInt8)) : ValueOption → List Use
  | .wwwRootDir => [.strdup]
  | .port =>
    if atoiOrZero value > 0 ∧ atoiOrZero value < 65535 then [.atoi, .strdup] else [.atoi]
  | _ => [.atoi]

/-- `argv[n]` is compared with the names. -/
def ValueOption.strcmps (n : ℕ) (string : Option (List UInt8)) (opts : ServerOpts)
    (o : ValueOption) : List Access :=
  o.comparedWith.map fun name => ⟨.strcmp name, n, n, string, opts⟩

/-- `argv[n]` is the value. -/
def ValueOption.valueUses (n : ℕ) (value : Option (List UInt8)) (opts : ServerOpts)
    (o : ValueOption) : List Access :=
  (o.uses value).map fun use => ⟨use, n, n, value, opts⟩

/-- A part of the command line: an option and its value, another word with a dash, or a word
without. -/
inductive Given
  | valued (o : ValueOption) (value : List UInt8)
  | unknown (text : List UInt8) (h : ∀ o : ValueOption, text ≠ o.name)
  | stray (arg : List UInt8) (h : arg.head? ≠ some 45)

namespace Given

/-- The arguments. -/
def args : Given → List (List UInt8)
  | .valued o value => [45 :: o.name, value]
  | .unknown text _ => [45 :: text]
  | .stray arg _ => [arg]

/-- The arguments after the loop has seen them. -/
def moved : Given → List (List UInt8)
  | .valued o value => [o.name, value]
  | .unknown text _ => [text]
  | .stray arg _ => [arg]

/-- The uses of its arguments, the first of which is `argv[n]`. -/
def accesses (g : Given) (n argc : ℕ) (opts : ServerOpts) : List Access :=
  match g with
  | .valued o value => ⟨.first, n, n, some (45 :: o.name), opts⟩ ::
      (o.strcmps n (some o.name) opts ++ o.valueUses (n + 1) (some value) opts)
  | .unknown text _ => ⟨.first, n, n, some (45 :: text), opts⟩ ::
      (ValueOption.maxOutstandingAccepts.strcmps n (some text) opts ++
        [⟨.rejected, n, n, some text, opts⟩])
  | .stray arg _ => [⟨.first, n, n, some arg, opts⟩, ⟨.rejected, n, argc, none, opts⟩]

/-- What it does to the options. -/
def apply : Given → ServerOpts → ServerOpts
  | .valued o value, opts => o.set value opts
  | .unknown _ _, opts => opts
  | .stray _ _, opts => opts

end Given

/-- The options after all of them. -/
def applyAll (gs : List Given) (opts : ServerOpts) : ServerOpts :=
  gs.foldl (fun opts g => g.apply opts) opts

/-- The uses of their arguments, the first of which is `argv[n]`. -/
def allAccesses : List Given → ℕ → ℕ → ServerOpts → List Access
  | [], _, _, _ => []
  | g :: gs, n, argc, opts =>
    g.accesses n argc opts ++ allAccesses gs (n + g.args.length) argc (g.apply opts)

/-- The accesses for an option at the end that lacks its value; it is `argv[n]`. -/
def danglingAccesses (o : ValueOption) (n : ℕ) (opts : ServerOpts) : List Access :=
  ⟨.first, n, n, some (45 :: o.name), opts⟩ ::
    (o.strcmps n (some o.name) opts ++ o.valueUses (n + 1) none opts)

/-- A command line consists of such parts; an option at its end may lack its value. -/
theorem exists_given (args : List (List UInt8)) : ∃ (gs : List Given) (last : Option ValueOption),
    args = gs.flatMap Given.args ++ last.toList.map fun o => 45 :: o.name := by
  induction hn : args.length using Nat.strong_induction_on generalizing args with
  | _ n ih =>
    cases args with
    | nil => exact ⟨[], none, rfl⟩
    | cons arg rest =>
      -- one more part in front of the others
      have hfront : ∀ (g : Given) (others : List (List UInt8)), arg :: rest = g.args ++ others →
          others.length < n → ∃ (gs : List Given) (last : Option ValueOption),
            arg :: rest = gs.flatMap Given.args ++ last.toList.map fun o => 45 :: o.name := by
        intro g others hargs hlt
        obtain ⟨gs, last, hothers⟩ := ih others.length hlt others rfl
        refine ⟨g :: gs, last, ?_⟩
        rw [hargs, hothers, List.flatMap_cons, List.append_assoc]
      rw [List.length_cons] at hn
      by_cases hdash : arg.head? = some 45
      · obtain ⟨text, rfl⟩ : ∃ text, arg = 45 :: text := by
          cases arg with
          | nil => cases hdash
          | cons b text =>
            obtain rfl := Option.some.inj hdash
            exact ⟨text, rfl⟩
        by_cases hname : ∃ o : ValueOption, text = o.name
        · obtain ⟨o, rfl⟩ := hname
          cases rest with
          | nil => exact ⟨[], some o, rfl⟩
          | cons value rest =>
            rw [List.length_cons] at hn
            exact hfront (.valued o value) rest rfl (by omega)
        · exact hfront (.unknown text (not_exists.mp hname)) rest rfl (by omega)
      · exact hfront (.stray arg hdash) rest rfl (by omega)

/-! ## One round -/

namespace Parsing

variable {s : Parsing} {use : Use} {index : ℕ}

@[simp] theorem i_access : (s.access use index).i = s.i := rfl
@[simp] theorem argv_access : (s.access use index).argv = s.argv := rfl
@[simp] theorem svOptions_access : (s.access use index).svOptions = s.svOptions := rfl
@[simp] theorem string_access : (s.access use index).string = s.string := rfl

@[simp] theorem accesses_access : (s.access use index).accesses =
    s.accesses ++ [⟨use, s.i, index, s.argv[index]?, s.svOptions⟩] := rfl

@[simp] theorem i_accessNext : (s.accessNext use).i = s.i + 1 := rfl
@[simp] theorem argv_accessNext : (s.accessNext use).argv = s.argv := rfl
@[simp] theorem svOptions_accessNext : (s.accessNext use).svOptions = s.svOptions := rfl
@[simp] theorem string_accessNext : (s.accessNext use).string = s.argv[s.i + 1]? := rfl

@[simp] theorem accesses_accessNext : (s.accessNext use).accesses =
    s.accesses ++ [⟨use, s.i + 1, s.i + 1, s.argv[s.i + 1]?, s.svOptions⟩] := rfl

end Parsing

section rounds

variable {s : Parsing} {front rest : List (List UInt8)} {text : List UInt8}

/-- An option with a value takes the next argument, if there is one. -/
theorem parseOption_valued (o : ValueOption) (h : s.string = some o.name) :
    parseOption s = ⟨s.i + 1, s.argv, o.set s.argv[s.i + 1]? s.svOptions,
      s.accesses ++ (o.strcmps s.i s.string s.svOptions ++
        o.valueUses (s.i + 1) s.argv[s.i + 1]? s.svOptions)⟩ := by
  have hentry : s.argv[s.i]? = s.string := rfl
  unfold parseOption
  cases o with
  | threadToProcessorRatio =>
    have hname : s.string = some threadToProcessorRatio := h
    simp [hname, hentry, ValueOption.set, ValueOption.strcmps, ValueOption.valueUses,
      ValueOption.comparedWith, ValueOption.uses]
  | port =>
    have hname : s.string = some port := h
    have hratio : port ≠ threadToProcessorRatio := by decide
    by_cases hrange : 0 < atoiOrZero s.argv[s.i + 1]? ∧ atoiOrZero s.argv[s.i + 1]? < 65535
    · simp [hname, hentry, hratio, hrange, ValueOption.set, strdup, ValueOption.strcmps,
        ValueOption.valueUses, ValueOption.comparedWith, ValueOption.uses]
    · simp only [Parsing.string_access, Parsing.string_accessNext, Parsing.i_access,
        Parsing.argv_access, hname, hratio, hrange, Option.some.injEq, if_true, if_false,
        gt_iff_lt, ValueOption.set]
      simp [Parsing.access, Parsing.accessNext, hname, hentry, hrange, ValueOption.strcmps,
        ValueOption.valueUses, ValueOption.comparedWith, ValueOption.uses]
  | wwwRootDir =>
    have hname : s.string = some wwwRootDir := h
    have hratio : wwwRootDir ≠ threadToProcessorRatio := by decide
    have hport : wwwRootDir ≠ port := by decide
    simp [hname, hentry, hratio, hport, ValueOption.set, strdup, ValueOption.strcmps,
      ValueOption.valueUses, ValueOption.comparedWith, ValueOption.uses]
  | connectionLimit =>
    have hname : s.string = some connectionLimit := h
    have hratio : connectionLimit ≠ threadToProcessorRatio := by decide
    have hport : connectionLimit ≠ port := by decide
    have hroot : connectionLimit ≠ wwwRootDir := by decide
    by_cases hpos : 0 < atoiOrZero s.argv[s.i + 1]?
    · simp [hname, hentry, hratio, hport, hroot, hpos, ValueOption.set, ValueOption.strcmps,
        ValueOption.valueUses, ValueOption.comparedWith, ValueOption.uses]
    · simp only [Parsing.string_access, Parsing.string_accessNext, Parsing.i_access,
        Parsing.argv_access, hname, hratio, hport, hroot, hpos, Option.some.injEq, if_true,
        if_false, ValueOption.set]
      simp [Parsing.access, Parsing.accessNext, hname, hentry, ValueOption.strcmps,
        ValueOption.valueUses, ValueOption.comparedWith, ValueOption.uses]
  | maxOutstandingAccepts =>
    have hname : s.string = some maxOutstandingAcepts := h
    have hratio : maxOutstandingAcepts ≠ threadToProcessorRatio := by decide
    have hport : maxOutstandingAcepts ≠ port := by decide
    have hroot : maxOutstandingAcepts ≠ wwwRootDir := by decide
    have hlimit : maxOutstandingAcepts ≠ connectionLimit := by decide
    simp [hname, hentry, hratio, hport, hroot, hlimit, ValueOption.set, ValueOption.strcmps,
      ValueOption.valueUses, ValueOption.comparedWith, ValueOption.uses]

/-- Anything else is rejected. -/
theorem parseOption_unknown (hs : s.string = some text) (h : ∀ o : ValueOption, text ≠ o.name) :
    parseOption s = ⟨s.i, s.argv, s.svOptions,
      s.accesses ++ (ValueOption.maxOutstandingAccepts.strcmps s.i s.string s.svOptions ++
        [⟨.rejected, s.i, s.i, s.string, s.svOptions⟩])⟩ := by
  have hentry : s.argv[s.i]? = s.string := rfl
  have hratio : text ≠ threadToProcessorRatio := h .threadToProcessorRatio
  have hport : text ≠ port := h .port
  have hroot : text ≠ wwwRootDir := h .wwwRootDir
  have hlimit : text ≠ connectionLimit := h .connectionLimit
  have hmax : text ≠ maxOutstandingAcepts := h .maxOutstandingAccepts
  unfold parseOption
  simp only [Parsing.string_access, hs, hratio, hport, hroot, hlimit, hmax, Option.some.injEq,
    if_false]
  simp [Parsing.access, hs, hentry, ValueOption.strcmps, ValueOption.comparedWith]

theorem modify_length_append {α : Type} (f : α → α) (l : List α) (a : α) (l' : List α) :
    (l ++ a :: l').modify l.length f = l ++ f a :: l' := by
  induction l with
  | nil => rfl
  | cons b l ih => rw [List.cons_append, List.length_cons, List.modify_succ_cons, ih]; rfl

/-- Behind a dash the entry of `argv` is moved. -/
theorem parseArg_dash (hargv : s.argv = front ++ (45 :: text) :: rest) (hi : s.i = front.length) :
    parseArg s = parseOption ⟨s.i, front ++ text :: rest, s.svOptions,
      s.accesses ++ [⟨.first, s.i, s.i, some (45 :: text), s.svOptions⟩]⟩ := by
  have hentry : s.argv[s.i]? = some (45 :: text) := by simp [hargv, hi]
  have hstring : s.string = some (45 :: text) := hentry
  have hmodify : s.argv.modify s.i List.tail = front ++ text :: rest := by
    rw [hargv, hi, modify_length_append]
    rfl
  have hdash : (s.access .first s.i).string.bind List.head? = some 45 := by
    rw [Parsing.string_access, hstring]
    rfl
  unfold parseArg
  simp only [hdash, ne_eq, not_true_eq_false, if_false]
  simp [hentry, Parsing.skipDash, Parsing.access, hmodify]

/-- A word without a dash is rejected, with the entry of `argv` behind all others. -/
theorem parseArg_stray {arg : List UInt8} (hs : s.string = some arg) (h : arg.head? ≠ some 45) :
    parseArg s = ⟨s.i, s.argv, s.svOptions,
      s.accesses ++ [⟨.first, s.i, s.i, some arg, s.svOptions⟩,
        ⟨.rejected, s.i, s.argv.length, none, s.svOptions⟩]⟩ := by
  have hentry : s.argv[s.i]? = s.string := rfl
  have hdash : (s.access .first s.i).string.bind List.head? ≠ some 45 := by
    rw [Parsing.string_access, hs]
    exact h
  unfold parseArg
  simp only [if_pos hdash]
  simp [hs, hentry, Parsing.access]

/-- One round for each part of the command line. -/
theorem parseArg_given (g : Given) (hargv : s.argv = front ++ (g.args ++ rest))
    (hi : s.i = front.length) :
    parseArg s = ⟨s.i + (g.args.length - 1), front ++ (g.moved ++ rest), g.apply s.svOptions,
      s.accesses ++ g.accesses s.i s.argv.length s.svOptions⟩ := by
  cases g with
  | valued o value =>
    -- behind the dash
    let t : Parsing := ⟨s.i, front ++ o.name :: value :: rest, s.svOptions,
      s.accesses ++ [⟨.first, s.i, s.i, some (45 :: o.name), s.svOptions⟩]⟩
    have hround : parseArg s = parseOption t := parseArg_dash hargv hi
    have hname : t.string = some o.name := by simp [t, Parsing.string, hi]
    have hvalue : t.argv[t.i + 1]? = some value := by simp [t, hi]
    rw [hround, parseOption_valued o hname, hvalue, hname]
    simp [t, Given.args, Given.moved, Given.apply, Given.accesses]
  | unknown text h =>
    let t : Parsing := ⟨s.i, front ++ text :: rest, s.svOptions,
      s.accesses ++ [⟨.first, s.i, s.i, some (45 :: text), s.svOptions⟩]⟩
    have hround : parseArg s = parseOption t := parseArg_dash hargv hi
    have htext : t.string = some text := by simp [t, Parsing.string, hi]
    rw [hround, parseOption_unknown htext h, htext]
    simp [t, Given.args, Given.moved, Given.apply, Given.accesses]
  | stray arg h =>
    have harg : s.string = some arg := by simp [Parsing.string, hargv, hi, Given.args]
    rw [parseArg_stray harg h, hargv]
    simp [Given.args, Given.moved, Given.apply, Given.accesses]

theorem parseArg_dangling {o : ValueOption} (hargv : s.argv = front ++ [45 :: o.name])
    (hi : s.i = front.length) :
    parseArg s = ⟨s.i + 1, front ++ [o.name], o.set none s.svOptions,
      s.accesses ++ danglingAccesses o s.i s.svOptions⟩ := by
  let t : Parsing := ⟨s.i, front ++ [o.name], s.svOptions,
    s.accesses ++ [⟨.first, s.i, s.i, some (45 :: o.name), s.svOptions⟩]⟩
  have hround : parseArg s = parseOption t := parseArg_dash hargv hi
  have hname : t.string = some o.name := by simp [t, Parsing.string, hi]
  have hvalue : t.argv[t.i + 1]? = none := by simp [t, hi]
  rw [hround, parseOption_valued o hname, hvalue, hname]
  simp [t, danglingAccesses]

/-! ## The loop -/

theorem length_moved (g : Given) : g.moved.length = g.args.length := by cases g <;> rfl

theorem parseLoop_round {fuel : ℕ} (h : s.i + 1 < s.argv.length) :
    parseLoop (fuel + 1) s = parseLoop fuel (parseArg { s with i := s.i + 1 }) := if_pos h

theorem parseLoop_end {fuel : ℕ} (h : s.argv.length ≤ s.i + 1) :
    parseLoop (fuel + 1) s = some { s with i := s.i + 1 } := if_neg (Nat.not_lt.mpr h)

/-- The parts of the command line, one round for each. -/
theorem parseLoop_given (gs : List Given) (fuel : ℕ)
    (hargv : s.argv = front ++ (gs.flatMap Given.args ++ rest)) (hi : s.i + 1 = front.length) :
    parseLoop (fuel + gs.length) s = parseLoop fuel ⟨s.i + (gs.flatMap Given.args).length,
      front ++ (gs.flatMap Given.moved ++ rest), applyAll gs s.svOptions,
      s.accesses ++ allAccesses gs front.length s.argv.length s.svOptions⟩ := by
  induction gs generalizing s front with
  | nil =>
    obtain ⟨i, argv, svOptions, accesses⟩ := s
    simp only at hargv
    subst hargv
    simp [applyAll, allAccesses]
  | cons g gs ih =>
    have hpos : 0 < g.args.length := by cases g <;> exact Nat.succ_pos _
    have hmoved := length_moved g
    rw [List.flatMap_cons, List.append_assoc] at hargv
    have hlt : s.i + 1 < s.argv.length := by
      rw [hargv, List.length_append, List.length_append]
      omega
    have hround := @parseArg_given { s with i := s.i + 1 } front
      (gs.flatMap Given.args ++ rest) g hargv hi
    rw [List.length_cons, ← Nat.add_assoc, parseLoop_round hlt, hround]
    have hrest := @ih ⟨s.i + 1 + (g.args.length - 1),
      front ++ (g.moved ++ (gs.flatMap Given.args ++ rest)), g.apply s.svOptions,
      s.accesses ++ g.accesses (s.i + 1) s.argv.length s.svOptions⟩ (front ++ g.moved)
      (by simp) (by simp; omega)
    rw [hrest]
    have hargc : (front ++ (g.moved ++ (gs.flatMap Given.args ++ rest))).length
        = s.argv.length := by
      rw [hargv]
      simp only [List.length_append]
      omega
    have hi' : s.i + 1 + (g.args.length - 1) + (gs.flatMap Given.args).length
        = s.i + ((g :: gs).flatMap Given.args).length := by
      rw [List.flatMap_cons, List.length_append]
      omega
    rw [hargc, hi']
    simp [allAccesses, applyAll, hi, hmoved]

/-- A command line whose options all have their values. -/
theorem parseLoop_complete (program : List UInt8) (gs : List Given) :
    parseLoop (1 + gs.length) (.start (program :: gs.flatMap Given.args)) =
      some ⟨(program :: gs.flatMap Given.args).length, program :: gs.flatMap Given.moved,
        applyAll gs .default,
        allAccesses gs 1 (program :: gs.flatMap Given.args).length .default⟩ := by
  have hgiven := @parseLoop_given (.start (program :: gs.flatMap Given.args)) [program] [] gs 1
    (by simp [Parsing.start]) rfl
  have hmoved : (gs.flatMap Given.moved).length = (gs.flatMap Given.args).length := by
    simp only [List.length_flatMap, length_moved]
  rw [hgiven, parseLoop_end (by simp [Parsing.start, hmoved])]
  simp [Parsing.start]

/-- A command line at whose end an option lacks its value. -/
theorem parseLoop_dangling (program : List UInt8) (gs : List Given) (o : ValueOption) :
    parseLoop (2 + gs.length) (.start (program :: (gs.flatMap Given.args ++ [45 :: o.name]))) =
      some ⟨(program :: (gs.flatMap Given.args ++ [45 :: o.name])).length + 1,
        program :: (gs.flatMap Given.moved ++ [o.name]), o.set none (applyAll gs .default),
        allAccesses gs 1 (program :: (gs.flatMap Given.args ++ [45 :: o.name])).length .default ++
          danglingAccesses o ((gs.flatMap Given.args).length + 1) (applyAll gs .default)⟩ := by
  have hgiven := @parseLoop_given (.start (program :: (gs.flatMap Given.args ++ [45 :: o.name])))
    [program] [45 :: o.name] gs 2 rfl rfl
  have hmoved : (gs.flatMap Given.moved).length = (gs.flatMap Given.args).length := by
    simp only [List.length_flatMap, length_moved]
  rw [hgiven, parseLoop_round (by simp [Parsing.start, hmoved])]
  rw [@parseArg_dangling _ (program :: gs.flatMap Given.moved) o (by simp)
    (by simp [Parsing.start, hmoved]), parseLoop_end (by simp [Parsing.start, hmoved])]
  simp [Parsing.start]

/-- The loop ends for every argument vector. -/
theorem parseLoop_ends (argv : List (List UInt8)) :
    ∃ fuel s, parseLoop fuel (.start argv) = some s := by
  cases argv with
  | nil => exact ⟨1, _, rfl⟩
  | cons program args =>
    obtain ⟨gs, last, rfl⟩ := exists_given args
    cases last with
    | none =>
      rw [Option.toList_none, List.map_nil, List.append_nil]
      exact ⟨_, _, parseLoop_complete program gs⟩
    | some o => exact ⟨_, _, parseLoop_dangling program gs o⟩

/-- More fuel changes nothing. -/
theorem parseLoop_add {fuel : ℕ} {t : Parsing} (k : ℕ) (h : parseLoop fuel s = some t) :
    parseLoop (fuel + k) s = some t := by
  induction fuel generalizing s with
  | zero => cases h
  | succ fuel ih =>
    rw [Nat.succ_add]
    by_cases hlt : s.i + 1 < s.argv.length
    · rw [parseLoop_round hlt] at h ⊢
      exact ih h
    · rw [parseLoop_end (Nat.not_lt.mp hlt)] at h ⊢
      exact h

/-- So the loop has one result. -/
theorem parseLoop_unique {fuel fuel' : ℕ} {t t' : Parsing} (h : parseLoop fuel s = some t)
    (h' : parseLoop fuel' s = some t') : t = t' := by
  have hadd := parseLoop_add fuel' h
  rw [Nat.add_comm, parseLoop_add fuel h'] at hadd
  exact (Option.some.inj hadd).symm

end rounds

end AioServer.Windows.CommandLine
