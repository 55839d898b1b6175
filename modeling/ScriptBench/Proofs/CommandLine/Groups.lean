import Mathlib.Tactic.SplitIfs
import ScriptBench.CommandLine.Options

/-! The grammar of the command line.

A command line is a list of groups: the word that asks for a report, an option with its value,
or the name of a file, of which there are two at most. Arguments are accepted when they split
into such groups, and the options they make are told by the groups alone: by the last value of
each option and by the files in order. Other arguments are refused for the group at which the
splitting stops.

`read_groups` says what reading does with groups, whatever follows them, `read_offends` what
it does where none follows, and `exists_begins` that one of the two is always the case. -/
namespace ScriptBench

/-- The names of a network, in lower case. -/
def Network.names : Network → List String
  | bitcoin => ["bitcoin", "btc"]
  | liquid => ["liquid", "elements"]

/-- The names of a script version, in lower case. -/
def ScriptVersion.names : ScriptVersion → List String
  | segwit => ["segwit", "v0"]
  | tapscript => ["tapscript", "taproot"]

theorem Network.ofName_eq_ok_iff {s : String} {n : Network} :
    ofName s = .ok n ↔ s.toLower ∈ n.names := by
  unfold ofName
  generalize s.toLower = lower
  cases n <;> simp only [names, List.mem_cons, List.not_mem_nil, or_false]
  · split_ifs <;> simp_all
  · split_ifs with hbitcoin hliquid
    · rcases hbitcoin with rfl | rfl <;> simp
    · simpa using hliquid
    · simpa using hliquid

theorem ScriptVersion.ofName_eq_ok_iff {s : String} {v : ScriptVersion} :
    ofName s = .ok v ↔ s.toLower ∈ v.names := by
  unfold ofName
  generalize s.toLower = lower
  cases v <;> simp only [names, List.mem_cons, List.not_mem_nil, or_false]
  · split_ifs <;> simp_all
  · split_ifs with hsegwit htapscript
    · rcases hsegwit with rfl | rfl <;> simp
    · simpa using htapscript
    · simpa using htapscript

namespace Options

/-! ### Groups -/

/-- How an option with a value is written. -/
def Flag.spellings : Flag → List String
  | network => ["--network", "-n"]
  | version => ["--version", "-v"]
  | template => ["--tx"]

/-- The values that an option may have. -/
def Flag.Accepts : Flag → String → Prop
  | network, value => ∃ n : Network, value.toLower ∈ n.names
  | version, value => ∃ v : ScriptVersion, value.toLower ∈ v.names
  | template, _ => True

def IsHelp (arg : String) : Prop := arg = "-h" ∨ arg = "--help"

/-- The words that have a meaning of their own. -/
def IsWord (arg : String) : Prop :=
  IsHelp arg ∨ arg = "--check" ∨ ∃ f : Flag, arg ∈ f.spellings

/-- The name of a file does not look like an option: a single hyphen is one. -/
def IsFile (arg : String) : Prop := arg = "" ∨ arg = "-" ∨ arg.toList.head? ≠ some '-'

/-- What belongs together on a command line. -/
inductive Group where
  | check
  | option (flag : Flag) (name value : String)
  | file (name : String)
deriving DecidableEq, Repr

namespace Group

def arguments : Group → List String
  | check => ["--check"]
  | option _ name value => [name, value]
  | file name => [name]

def Valid : Group → Prop
  | check => True
  | option f name value => name ∈ f.spellings ∧ f.Accepts value
  | file name => IsFile name

/-- The value that a group gives to an option. -/
@[simp] def value? (f : Flag) : Group → Option String
  | option g _ value => if g = f then some value else .none
  | _ => .none

@[simp] def file? : Group → Option String
  | file name => some name
  | _ => .none

end Group

/-- The values of an option in order, in whichever spelling it is written. -/
def valuesOf (f : Flag) (groups : List Group) : List String := groups.filterMap (·.value? f)

def filesOf (groups : List Group) : List String := groups.filterMap Group.file?

/-- The arguments are those of the groups one after another, with two files at most. -/
structure Splits (args : List String) (groups : List Group) : Prop where
  arguments : groups.flatMap Group.arguments = args
  valid : ∀ g ∈ groups, g.Valid
  files : (filesOf groups).length ≤ 2

/-- What the groups ask for: the last value of each option counts, and the first file is that of
the stack elements. -/
structure Collects (groups : List Group) (o : Options) : Prop where
  check : o.check = true ↔ .check ∈ groups
  network : (valuesOf .network groups).getLast?.elim (o.rules.network = RuleSet.standard.network)
    (·.toLower ∈ o.rules.network.names)
  version : (valuesOf .version groups).getLast?.elim (o.rules.version = RuleSet.standard.version)
    (·.toLower ∈ o.rules.version.names)
  template : o.template = (valuesOf .template groups).getLast?
  stackFile : o.stackFile = (filesOf groups)[0]?
  witnessFile : o.witnessFile = (filesOf groups)[1]?

/-- What is wrong with the first group of arguments that stand behind so many files. -/
inductive Offends (files : Nat) : List String → UsageError → Prop where
  | help {arg : String} {rest : List String} (h : IsHelp arg) :
    Offends files (arg :: rest) .helpRequested
  | missing {f : Flag} {arg : String} (h : arg ∈ f.spellings) :
    Offends files [arg] (.missingValue arg)
  | refused {f : Flag} {arg value : String} {rest : List String} (h : arg ∈ f.spellings)
      (hvalue : ¬ f.Accepts value) : Offends files (arg :: value :: rest) (.invalidValue arg value)
  | unknown {arg : String} {rest : List String} (hword : ¬ IsWord arg) (hfile : ¬ IsFile arg) :
    Offends files (arg :: rest) (.unknownFlag arg)
  | surplus {arg : String} {rest : List String} (h : IsFile arg) (hfiles : files = 2) :
    Offends files (arg :: rest) (.unexpectedArgument arg)

/-! ### Single arguments -/

theorem Argument.ofString_help {arg : String} (h : IsHelp arg) : ofString arg = help := if_pos h

theorem Argument.ofString_spelling {f : Flag} {arg : String} (h : arg ∈ f.spellings) :
    ofString arg = flag f := by
  cases f <;> simp only [Flag.spellings, List.mem_cons, List.not_mem_nil, or_false] at h
  · rcases h with rfl | rfl <;> decide
  · rcases h with rfl | rfl <;> decide
  · subst h
    decide

/-- An argument that is no word is a file or unknown. -/
theorem Argument.ofString_other {arg : String} (h : ¬ IsWord arg) :
    ofString arg = match arg.toList with
      | '-' :: _ :: _ => unknown
      | _ => file := by
  obtain ⟨hhelp, hcheck, hflag⟩ :
      ¬ (arg = "-h" ∨ arg = "--help") ∧ arg ≠ "--check" ∧ ∀ f : Flag, arg ∉ f.spellings := by
    simpa [IsWord, IsHelp] using h
  have hnetwork : ¬ (arg = "--network" ∨ arg = "-n") := by
    simpa [Flag.spellings] using hflag .network
  have hversion : ¬ (arg = "--version" ∨ arg = "-v") := by
    simpa [Flag.spellings] using hflag .version
  have htemplate : arg ≠ "--tx" := by simpa [Flag.spellings] using hflag .template
  rw [ofString, if_neg hhelp, if_neg hcheck, if_neg hnetwork, if_neg hversion]
  exact if_neg htemplate

theorem isFile_iff {arg : String} :
    IsFile arg ↔ ∀ c rest, arg.toList ≠ '-' :: c :: rest := by
  have hnil : arg = "" ↔ arg.toList = [] := by rw [← String.toList_inj]; rfl
  have hhyphen : arg = "-" ↔ arg.toList = ['-'] := by rw [← String.toList_inj]; rfl
  rw [IsFile, hnil, hhyphen]
  rcases arg.toList with _ | ⟨c, _ | ⟨d, rest⟩⟩ <;> simp [Decidable.em]

/-- Every word begins with a hyphen and goes on. -/
theorem IsWord.not_isFile {arg : String} (h : IsWord arg) : ¬ IsFile arg := by
  intro hfile
  have hother := isFile_iff.mp hfile
  rcases h with (rfl | rfl) | rfl | ⟨f, hf⟩
  · exact hother _ _ rfl
  · exact hother _ _ rfl
  · exact hother _ _ rfl
  · cases f <;> simp only [Flag.spellings, List.mem_cons, List.not_mem_nil, or_false] at hf
    · rcases hf with rfl | rfl <;> exact hother _ _ rfl
    · rcases hf with rfl | rfl <;> exact hother _ _ rfl
    · subst hf
      exact hother _ _ rfl

theorem Argument.ofString_file {arg : String} (h : IsFile arg) : ofString arg = file := by
  rw [ofString_other fun hword => hword.not_isFile h]
  split
  · exact absurd ‹_› (isFile_iff.mp h _ _)
  · rfl

theorem Argument.ofString_unknown {arg : String} (hword : ¬ IsWord arg) (hfile : ¬ IsFile arg) :
    ofString arg = unknown := by
  rw [ofString_other hword]
  split
  · rfl
  · rename_i hother
    exact absurd (isFile_iff.mpr hother) hfile

/-! ### Values -/

/-- A value that an option may not have is refused. -/
theorem set_of_not_accepts (o : Options) (name : String) {f : Flag} {value : String}
    (h : ¬ f.Accepts value) : o.set name value f = .error (.invalidValue name value) := by
  cases f with
  | template => exact absurd trivial h
  | network =>
    simp only [set]
    split
    · exact absurd ⟨_, Network.ofName_eq_ok_iff.mp ‹_›⟩ h
    · rfl
  | version =>
    simp only [set]
    split
    · exact absurd ⟨_, ScriptVersion.ofName_eq_ok_iff.mp ‹_›⟩ h
    · rfl

variable {before groups : List Group} {o : Options}

@[simp] theorem valuesOf_concat (f : Flag) (before : List Group) (g : Group) :
    valuesOf f (before ++ [g]) = valuesOf f before ++ (g.value? f).toList := by
  rw [valuesOf, List.filterMap_append, List.filterMap_cons]
  cases g.value? f <;> rfl

theorem filesOf_append (before groups : List Group) :
    filesOf (before ++ groups) = filesOf before ++ filesOf groups :=
  List.filterMap_append

@[simp] theorem filesOf_concat (before : List Group) (g : Group) :
    filesOf (before ++ [g]) = filesOf before ++ g.file?.toList := by
  rw [filesOf, List.filterMap_append, List.filterMap_cons]
  cases g.file? <;> rfl

theorem Collects.setCheck (h : Collects before o) :
    Collects (before ++ [.check]) { o with check := true } where
  check := by simp
  network := by simpa using h.network
  version := by simpa using h.version
  template := by simpa using h.template
  stackFile := by simpa using h.stackFile
  witnessFile := by simpa using h.witnessFile

/-- A value that an option may have takes the place of the one before. -/
theorem Collects.set (h : Collects before o) (name : String) {f : Flag} {value : String}
    (hvalue : f.Accepts value) : ∃ o', o.set name value f = .ok o' ∧
      Collects (before ++ [.option f name value]) o' := by
  cases f with
  | network =>
    obtain ⟨n, hn⟩ := hvalue
    exact ⟨{ o with rules := { o.rules with network := n } },
      by simp only [Options.set, Network.ofName_eq_ok_iff.mpr hn],
      { check := by simpa using h.check
        network := by simpa using hn
        version := by simpa using h.version
        template := by simpa using h.template
        stackFile := by simpa using h.stackFile
        witnessFile := by simpa using h.witnessFile }⟩
  | version =>
    obtain ⟨v, hv⟩ := hvalue
    exact ⟨{ o with rules := { o.rules with version := v } },
      by simp only [Options.set, ScriptVersion.ofName_eq_ok_iff.mpr hv],
      { check := by simpa using h.check
        network := by simpa using h.network
        version := by simpa using hv
        template := by simpa using h.template
        stackFile := by simpa using h.stackFile
        witnessFile := by simpa using h.witnessFile }⟩
  | template =>
    exact ⟨{ o with template := some value }, rfl,
      { check := by simpa using h.check
        network := by simpa using h.network
        version := by simpa using h.version
        template := by simp
        stackFile := by simpa using h.stackFile
        witnessFile := by simpa using h.witnessFile }⟩

/-- A file takes the first place that is free. -/
theorem Collects.addFile (h : Collects before o) (name : String)
    (hfiles : (filesOf before).length < 2) : ∃ o', o.addFile name = .ok o' ∧
      Collects (before ++ [.file name]) o' := by
  have hstack := h.stackFile
  have hwitness := h.witnessFile
  rcases hbefore : filesOf before with _ | ⟨first, _ | ⟨second, rest⟩⟩ <;>
    simp only [hbefore, List.getElem?_nil, List.getElem?_cons_zero, List.getElem?_cons_succ]
      at hstack hwitness
  · exact ⟨{ o with stackFile := some name }, by simp [Options.addFile, hstack],
      { check := by simpa using h.check
        network := by simpa using h.network
        version := by simpa using h.version
        template := by simpa using h.template
        stackFile := by simp [hbefore]
        witnessFile := by simp [hbefore, hwitness] }⟩
  · exact ⟨{ o with witnessFile := some name }, by simp [Options.addFile, hstack, hwitness],
      { check := by simpa using h.check
        network := by simpa using h.network
        version := by simpa using h.version
        template := by simpa using h.template
        stackFile := by simp [hbefore, hstack]
        witnessFile := by simp [hbefore] }⟩
  · simp only [hbefore, List.length_cons] at hfiles
    omega

/-- After two files there is room for no other. -/
theorem Collects.addFile_of_full (h : Collects before o) (hfull : (filesOf before).length = 2)
    (name : String) : o.addFile name = .error (.unexpectedArgument name) := by
  have hstack : o.stackFile.isNone = false := by rw [h.stackFile]; simp [hfull]
  have hwitness : o.witnessFile.isNone = false := by rw [h.witnessFile]; simp [hfull]
  simp [Options.addFile, hstack, hwitness]

/-! ### Reading -/

/-- One group is read, whatever follows it. -/
theorem Collects.read_group (h : Collects before o) {g : Group} (hg : g.Valid)
    (hfiles : (filesOf (before ++ [g])).length ≤ 2) :
    ∃ o', Collects (before ++ [g]) o' ∧ ∀ rest, o.read (g.arguments ++ rest) = o'.read rest := by
  cases g with
  | check =>
    refine ⟨_, h.setCheck, fun rest => ?_⟩
    rw [Group.arguments, List.singleton_append, read]
    rfl
  | option f name value =>
    obtain ⟨o', hset, hcollects⟩ := h.set name hg.2
    refine ⟨o', hcollects, fun rest => ?_⟩
    rw [Group.arguments, List.cons_append, List.singleton_append, read,
      Argument.ofString_spelling hg.1]
    simp only [hset]
  | file name =>
    obtain ⟨o', hadd, hcollects⟩ := h.addFile name (by simpa [Nat.lt_succ_iff] using hfiles)
    refine ⟨o', hcollects, fun rest => ?_⟩
    rw [Group.arguments, List.singleton_append, read, Argument.ofString_file hg]
    simp only [hadd]

/-- Groups are read one after another, whatever follows them. -/
theorem Collects.read_groups (h : Collects before o) (hvalid : ∀ g ∈ groups, g.Valid)
    (hfiles : (filesOf (before ++ groups)).length ≤ 2) :
    ∃ o', Collects (before ++ groups) o' ∧
      ∀ rest, o.read (groups.flatMap Group.arguments ++ rest) = o'.read rest := by
  induction groups generalizing before o with
  | nil => exact ⟨o, by rwa [List.append_nil], fun rest => rfl⟩
  | cons g groups ih =>
    rw [List.forall_mem_cons] at hvalid
    rw [List.append_cons] at hfiles ⊢
    have hfirst : (filesOf (before ++ [g])).length ≤ 2 := by
      rw [filesOf_append, List.length_append] at hfiles
      omega
    obtain ⟨o₁, hcollects₁, hread₁⟩ := h.read_group hvalid.1 hfirst
    obtain ⟨o', hcollects, hread⟩ := ih hcollects₁ hvalid.2 hfiles
    refine ⟨o', hcollects, fun rest => ?_⟩
    rw [List.flatMap_cons, List.append_assoc, hread₁, hread]

/-- Where no group follows, reading ends with what is wrong. -/
theorem Collects.read_offends (h : Collects before o) {rest : List String} {e : UsageError}
    (hrest : Offends (filesOf before).length rest e) : o.read rest = .error e := by
  cases hrest with
  | help harg => rw [read, Argument.ofString_help harg]
  | missing harg => rw [read, Argument.ofString_spelling harg]
  | refused harg hvalue =>
    rw [read, Argument.ofString_spelling harg]
    simp only [set_of_not_accepts o _ hvalue]
  | unknown hword hfile => rw [read, Argument.ofString_unknown hword hfile]
  | surplus harg hfull =>
    rw [read, Argument.ofString_file harg]
    simp only [h.addFile_of_full hfull]

/-! ### The grammar -/

/-- Behind `n` files, the arguments begin with the groups, and those end where the arguments
do or where something is wrong. -/
structure Begins (n : Nat) (args : List String) (groups : List Group) (rest : List String) :
    Prop where
  arguments : args = groups.flatMap Group.arguments ++ rest
  valid : ∀ g ∈ groups, g.Valid
  files : n + (filesOf groups).length ≤ 2
  ends : rest = [] ∨ ∃ e, Offends (n + (filesOf groups).length) rest e

namespace Begins
variable {n : Nat} {args rest : List String}

theorem nil (hn : n ≤ 2) (h : args = [] ∨ ∃ e, Offends n args e) : Begins n args [] args :=
  ⟨rfl, List.forall_mem_nil _, hn, h⟩

/-- One group more in front. -/
theorem cons {g : Group} (hg : g.Valid) (h : Begins (n + g.file?.toList.length) args groups rest) :
    Begins n (g.arguments ++ args) (g :: groups) rest := by
  have hlength : n + (filesOf (g :: groups)).length =
      n + g.file?.toList.length + (filesOf groups).length := by
    rw [← List.singleton_append, filesOf_append, List.length_append, ← List.nil_append [g],
      filesOf_concat, Nat.add_assoc]
    rfl
  refine ⟨?_, List.forall_mem_cons.mpr ⟨hg, h.valid⟩, hlength ▸ h.files, hlength ▸ h.ends⟩
  rw [h.arguments, List.flatMap_cons, List.append_assoc]

end Begins

/-- Groups can be taken off the front of any arguments, up to the end or to what is wrong. -/
theorem exists_begins (args : List String) {n : Nat} (hn : n ≤ 2) :
    ∃ groups rest, Begins n args groups rest := by
  -- An option takes two arguments off at once, so the induction is on how many are left.
  induction hlength : args.length using Nat.strongRecOn generalizing args n with
  | ind length ih =>
    subst hlength
    rcases args with _ | ⟨arg, rest⟩
    · exact ⟨[], [], .nil hn (.inl rfl)⟩
    by_cases hhelp : IsHelp arg
    · exact ⟨[], _, .nil hn (.inr ⟨_, .help hhelp⟩)⟩
    by_cases hcheck : arg = "--check"
    · obtain ⟨groups, left, h⟩ := ih rest.length (by simp) rest hn rfl
      subst hcheck
      exact ⟨_, left, h.cons (g := .check) trivial⟩
    by_cases hflag : ∃ f : Flag, arg ∈ f.spellings
    · obtain ⟨f, hf⟩ := hflag
      rcases rest with _ | ⟨value, rest⟩
      · exact ⟨[], _, .nil hn (.inr ⟨_, .missing hf⟩)⟩
      by_cases hvalue : f.Accepts value
      · have hshorter : rest.length < (arg :: value :: rest).length := by
          simp only [List.length_cons]
          omega
        obtain ⟨groups, left, h⟩ := ih rest.length hshorter rest hn rfl
        exact ⟨_, left, h.cons (g := .option f arg value) ⟨hf, hvalue⟩⟩
      · exact ⟨[], _, .nil hn (.inr ⟨_, .refused hf hvalue⟩)⟩
    by_cases hfile : IsFile arg
    · by_cases hfull : n = 2
      · exact ⟨[], _, .nil hn (.inr ⟨_, .surplus hfile hfull⟩)⟩
      · obtain ⟨groups, left, h⟩ := ih rest.length (by simp) rest (n := n + 1) (by omega) rfl
        exact ⟨_, left, h.cons (g := .file arg) hfile⟩
    · have hword : ¬ IsWord arg := not_or.mpr ⟨hhelp, not_or.mpr ⟨hcheck, hflag⟩⟩
      exact ⟨[], _, .nil hn (.inr ⟨_, .unknown hword hfile⟩)⟩

/-- Nothing has been asked for yet. -/
theorem collects_none : Collects [] none where
  check := by simp [none]
  network := rfl
  version := rfl
  template := rfl
  stackFile := rfl
  witnessFile := rfl

/-- No two networks and no two versions share a name, so groups ask for one thing. -/
theorem Collects.unique {o' : Options} (h : Collects groups o) (h' : Collects groups o') :
    o = o' := by
  have hnetwork : o.rules.network = o'.rules.network := by
    have hn := h.network
    have hn' := h'.network
    cases hlast : (valuesOf .network groups).getLast? with
    | none =>
      rw [hlast] at hn hn'
      exact Eq.trans hn hn'.symm
    | some value =>
      rw [hlast, Option.elim_some, ← Network.ofName_eq_ok_iff] at hn hn'
      exact Except.ok.inj (hn.symm.trans hn')
  have hversion : o.rules.version = o'.rules.version := by
    have hv := h.version
    have hv' := h'.version
    cases hlast : (valuesOf .version groups).getLast? with
    | none =>
      rw [hlast] at hv hv'
      exact Eq.trans hv hv'.symm
    | some value =>
      rw [hlast, Option.elim_some, ← ScriptVersion.ofName_eq_ok_iff] at hv hv'
      exact Except.ok.inj (hv.symm.trans hv')
  have hcheck : o.check = o'.check := Bool.eq_iff_iff.mpr (h.check.trans h'.check.symm)
  have htemplate := h.template.trans h'.template.symm
  have hstack := h.stackFile.trans h'.stackFile.symm
  have hwitness := h.witnessFile.trans h'.witnessFile.symm
  obtain ⟨⟨_, _⟩, _, _, _, _⟩ := o
  obtain ⟨⟨_, _⟩, _, _, _, _⟩ := o'
  simp_all

/-- Groups that may stand on a command line are accepted. -/
theorem Splits.ofArgs {args : List String} (h : Splits args groups) :
    ∃ o, Collects groups o ∧ ofArgs args = .ok o := by
  obtain ⟨o, hcollects, hread⟩ := collects_none.read_groups h.valid h.files
  refine ⟨o, hcollects, ?_⟩
  have hargs := hread []
  rwa [List.append_nil, h.arguments] at hargs

/-- What stands behind such groups and is wrong is the reason why the arguments are refused. -/
theorem Splits.ofArgs_append {front rest : List String} (h : Splits front groups) {e : UsageError}
    (hrest : Offends (filesOf groups).length rest e) :
    Options.ofArgs (front ++ rest) = .error e := by
  obtain ⟨o, hcollects, hread⟩ := collects_none.read_groups h.valid h.files
  rw [Options.ofArgs, ← h.arguments, hread, hcollects.read_offends hrest]

/-- All arguments are of one of these two kinds. -/
theorem splits_or_offends (args : List String) :
    (∃ groups, Splits args groups) ∨ ∃ groups front rest e, args = front ++ rest ∧
      Splits front groups ∧ Offends (filesOf groups).length rest e := by
  obtain ⟨groups, rest, h⟩ := exists_begins args (Nat.zero_le 2)
  have hfiles := h.files
  have hends := h.ends
  rw [Nat.zero_add] at hfiles hends
  rcases hends with rfl | ⟨e, hrest⟩
  · exact .inl ⟨groups, by rw [h.arguments, List.append_nil], h.valid, hfiles⟩
  · exact .inr ⟨groups, _, rest, e, h.arguments, ⟨rfl, h.valid, hfiles⟩, hrest⟩

/-- The same choices, in whichever spelling: the order among the values of one option and the
order among the files are kept, and nothing else of the order. -/
structure SameChoices (groups groups' : List Group) : Prop where
  check : Group.check ∈ groups ↔ Group.check ∈ groups'
  values : ∀ f, valuesOf f groups = valuesOf f groups'
  files : filesOf groups = filesOf groups'

theorem Collects.of_sameChoices {groups' : List Group} (h : Collects groups o)
    (hsame : SameChoices groups groups') : Collects groups' o where
  check := h.check.trans hsame.check
  network := hsame.values .network ▸ h.network
  version := hsame.values .version ▸ h.version
  template := hsame.values .template ▸ h.template
  stackFile := hsame.files ▸ h.stackFile
  witnessFile := hsame.files ▸ h.witnessFile

/-- **The command line has one grammar.** Arguments are accepted exactly when they split into
groups, which tell the options; otherwise the error is that of the first group that is wrong; and
the order of the groups does not matter, but among the values of one option and among the files. -/
theorem ofArgs_grammar (args : List String) :
    (∀ o, ofArgs args = .ok o ↔ ∃ groups, Splits args groups ∧ Collects groups o) ∧
    (∀ e, ofArgs args = .error e ↔ ∃ groups front rest, args = front ++ rest ∧
      Splits front groups ∧ Offends (filesOf groups).length rest e) ∧
    ∀ groups, Splits args groups → ∀ args' groups', Splits args' groups' →
      SameChoices groups groups' → ∃ o, ofArgs args = .ok o ∧ ofArgs args' = .ok o := by
  refine ⟨fun o => ⟨fun hok => ?_, ?_⟩, fun e => ⟨fun herror => ?_, ?_⟩, ?_⟩
  · rcases splits_or_offends args with ⟨groups, h⟩ | ⟨groups, front, rest, e, rfl, h, hrest⟩
    · obtain ⟨o', hcollects, hargs⟩ := h.ofArgs
      cases hargs.symm.trans hok
      exact ⟨groups, h, hcollects⟩
    · cases (h.ofArgs_append hrest).symm.trans hok
  · rintro ⟨groups, h, hcollects⟩
    obtain ⟨o', hcollects', hargs⟩ := h.ofArgs
    rwa [hcollects.unique hcollects']
  · rcases splits_or_offends args with ⟨groups, h⟩ | ⟨groups, front, rest, e', rfl, h, hrest⟩
    · obtain ⟨o', -, hargs⟩ := h.ofArgs
      cases hargs.symm.trans herror
    · cases (h.ofArgs_append hrest).symm.trans herror
      exact ⟨groups, front, rest, rfl, h, hrest⟩
  · rintro ⟨groups, front, rest, rfl, h, hrest⟩
    exact h.ofArgs_append hrest
  · intro groups h args' groups' h' hsame
    obtain ⟨o, hcollects, hargs⟩ := h.ofArgs
    obtain ⟨o', hcollects', hargs'⟩ := h'.ofArgs
    refine ⟨o, hargs, ?_⟩
    rwa [(hcollects.of_sameChoices hsame).unique hcollects']

/-- Options in two spellings, among them a value that looks like an option, and two files. -/
def mixedGroups : List Group :=
  [.option .template "--tx" "-h", .option .network "-n" "LIQUID", .file "-", .check,
    .option .network "--network" "btc", .file ""]

/-- The same in another order. -/
def reorderedGroups : List Group :=
  [.check, .file "-", .option .network "--network" "LIQUID", .file "",
    .option .network "-n" "btc", .option .template "--tx" "-h"]

theorem ofArgs_grammar_reordered :
    Splits ["--tx", "-h", "-n", "LIQUID", "-", "--check", "--network", "btc", ""] mixedGroups ∧
    Splits ["--check", "-", "--network", "LIQUID", "", "-n", "btc", "--tx", "-h"]
      reorderedGroups ∧
    SameChoices mixedGroups reorderedGroups ∧
    ∃ o, ofArgs ["--tx", "-h", "-n", "LIQUID", "-", "--check", "--network", "btc", ""] = .ok o ∧
      ofArgs ["--check", "-", "--network", "LIQUID", "", "-n", "btc", "--tx", "-h"] = .ok o := by
  have hvalues : Flag.network.Accepts "LIQUID" ∧ Flag.network.Accepts "btc" ∧
      Flag.template.Accepts "-h" :=
    ⟨⟨.liquid, by decide +kernel⟩, ⟨.bitcoin, by decide +kernel⟩, trivial⟩
  have hmixed : Splits ["--tx", "-h", "-n", "LIQUID", "-", "--check", "--network", "btc", ""]
      mixedGroups :=
    ⟨rfl, by simp [mixedGroups, Group.Valid, Flag.spellings, IsFile, hvalues], by decide⟩
  have hreordered : Splits ["--check", "-", "--network", "LIQUID", "", "-n", "btc", "--tx", "-h"]
      reorderedGroups :=
    ⟨rfl, by simp [reorderedGroups, Group.Valid, Flag.spellings, IsFile, hvalues], by decide⟩
  have hsame : SameChoices mixedGroups reorderedGroups :=
    ⟨by decide, fun f => by cases f <;> decide, by decide⟩
  exact ⟨hmixed, hreordered, hsame, (ofArgs_grammar _).2.2 _ hmixed _ _ hreordered hsame⟩

end Options

end ScriptBench
