import LanguageClient.Configuration.Launch
import LanguageClient.Proofs.Keyed
import LanguageClient.Proofs.Text.OsString

/-!
# Which servers can be launched

An entry cannot be launched for what it lacks, or for a variable to which its
paths cannot be added (`Environment.Admits`). The variables are looked at in
the order of their names, and what they hold is kept in front of the paths.

* `extendedAll_of_admits`, `extendedAll_of_firstRefused`: the variables of a
  launch, and the first of them that is refused.
* `launch_of_launchable`, `launch_of_refused`: an entry is launched or refused.
* `launch_spec`: when an entry can be launched, and what is said when it cannot.
-/
namespace LanguageClient

/-! ## Variables -/

namespace Environment

/-- Whether paths can be added to a variable: it has a name, and no path has a colon in it when
the home directory is put in. -/
def Admits (env : Environment) (varName : String) (paths : List String) : Prop :=
  varName ≠ "" ∧ ∀ path ∈ paths, ':' ∉ (env.expand path).toList

/-- What a variable holds, if it is set, and behind it each of some paths, with colons between. -/
def withPaths (env : Environment) (varName : String) (paths : List String) : OsString :=
  .joined ((env.vars.get? varName).toList ++ paths.map fun path => .ofText (env.expand path))

/-- The first of some variables in the order of the names to which paths cannot be added. -/
def FirstRefused (env : Environment) (entries : Keyed (List String)) (varName : String) : Prop :=
  ∃ paths, (varName, paths) ∈ entries ∧ ¬env.Admits varName paths ∧
    ∀ other paths, (other, paths) ∈ entries → other < varName → env.Admits other paths

end Environment

/-- Why paths cannot be added to a variable. -/
def LaunchError.ofVariable (varName : String) : LaunchError :=
  if varName = "" then .unnamedVariable else .invalidPath varName

namespace ServerEntry

variable {env : Environment} {varName : String} {paths : List String}
  {entries : Keyed (List String)}

theorem extended_of_admits (h : env.Admits varName paths) :
    extended env varName paths = .ok (env.withPaths varName paths) := by
  obtain ⟨hname, hpaths⟩ := h
  have hclear : ((paths.map fun path => OsString.ofText (env.expand path)).any
      fun path => path.bytes.contains OsString.separator) = false := by
    simpa [OsString.separator_mem_ofText] using hpaths
  simp only [extended, if_neg hname, OsString.joinParts?_extended, hclear, Bool.false_eq_true,
    if_false, Environment.withPaths]

theorem extended_of_not_admits (h : ¬env.Admits varName paths) :
    extended env varName paths = .error (.ofVariable varName) := by
  unfold extended LaunchError.ofVariable
  by_cases hname : varName = ""
  · rw [if_pos hname, if_pos hname]
  · have hcolon : ((paths.map fun path => OsString.ofText (env.expand path)).any
        fun path => path.bytes.contains OsString.separator) = true := by
      simpa [Environment.Admits, hname, OsString.separator_mem_ofText] using h
    simp only [if_neg hname, OsString.joinParts?_extended, hcolon, if_true]

theorem extendedAll_of_admits
    (h : ∀ varName paths, (varName, paths) ∈ entries → env.Admits varName paths) :
    extendedAll env entries =
      .ok (entries.map fun (varName, paths) => (varName, env.withPaths varName paths)) := by
  induction entries with
  | nil => rfl
  | cons entry rest ih =>
    obtain ⟨varName, paths⟩ := entry
    obtain ⟨hadmits, hrest⟩ := Keyed.forall_mem_cons.1 h
    simp only [extendedAll, extended_of_admits hadmits, ih hrest, List.map_cons]

/-- The variables before the first that is refused do not matter. -/
theorem extendedAll_of_firstRefused (hs : entries.Sorted)
    (h : env.FirstRefused entries varName) :
    extendedAll env entries = .error (.ofVariable varName) := by
  obtain ⟨paths, hm, hrefused, hfirst⟩ := h
  induction entries with
  | nil => cases hm
  | cons entry rest ih =>
    obtain ⟨name, others⟩ := entry
    obtain ⟨hbehind, hs⟩ := List.pairwise_cons.1 hs
    rcases List.mem_cons.1 hm with he | hm
    · cases he
      simp only [extendedAll, extended_of_not_admits hrefused]
    · obtain ⟨hadmits, hfirst⟩ := Keyed.forall_mem_cons.1 hfirst
      have hlt := hbehind varName (List.mem_map_of_mem (f := Prod.fst) hm)
      simp only [extendedAll, extended_of_admits (hadmits hlt), ih hs hm hfirst]

/-- Either paths can be added to all variables, or there is a first to which they cannot. -/
theorem admits_or_firstRefused (env : Environment) (hs : entries.Sorted) :
    (∀ varName paths, (varName, paths) ∈ entries → env.Admits varName paths) ∨
      ∃ varName, env.FirstRefused entries varName := by
  induction entries with
  | nil => exact .inl fun _ _ hm => by cases hm
  | cons entry rest ih =>
    obtain ⟨name, others⟩ := entry
    obtain ⟨hbehind, hs⟩ := List.pairwise_cons.1 hs
    by_cases hadmits : env.Admits name others
    · rcases ih hs with hall | ⟨varName, paths, hm, hrefused, hfirst⟩
      · exact .inl (Keyed.forall_mem_cons.2 ⟨hadmits, hall⟩)
      · exact .inr ⟨varName, paths, List.mem_cons_of_mem _ hm, hrefused,
          Keyed.forall_mem_cons.2 ⟨fun _ => hadmits, hfirst⟩⟩
    · refine .inr ⟨name, others, List.mem_cons_self, hadmits, Keyed.forall_mem_cons.2 ⟨?_, ?_⟩⟩
      · exact fun hlt => absurd hlt (lt_irrefl _)
      · intro other paths hm hlt
        have hgt := hbehind other (List.mem_map_of_mem (f := Prod.fst) hm)
        exact absurd hlt (lt_asymm hgt)

/-! ## Entries -/

variable {e : ServerEntry} {name : String} {launched : Launch} {err : LaunchError}

/-- The words of the command that is to be run, if there is one. -/
def words? (e : ServerEntry) (env : Environment) : Option (List String) :=
  e.command.bind (·.forSystem? env.os)

/-- Whether an entry has all that it takes to launch it. -/
def Launchable (e : ServerEntry) (env : Environment) : Prop :=
  e.languageIds ≠ [] ∧ (e.tcpPort.isSome ∨
    (∃ words, e.words? env = some words ∧ words ≠ []) ∧
      ∀ varName paths, (varName, paths) ∈ e.envPaths → env.Admits varName paths)

/-- Why an entry cannot be launched: the first that holds of three reasons, the last of which is
that of the first variable in the order of the names. -/
inductive Refused (e : ServerEntry) (env : Environment) : LaunchError → Prop
  | noLanguages (hl : e.languageIds = []) : Refused e env .noLanguages
  | missingCommand (hl : e.languageIds ≠ []) (hport : e.tcpPort = none)
      (hwords : ∀ words, e.words? env = some words → words = []) :
      Refused e env (.missingCommand env.os)
  | pathsRefused {words : List String} {varName : String} (hl : e.languageIds ≠ [])
      (hport : e.tcpPort = none) (hwords : e.words? env = some words) (hne : words ≠ [])
      (hfirst : env.FirstRefused e.envPaths varName) : Refused e env (.ofVariable varName)

theorem endpoint_of_port {port : UInt16} (h : e.tcpPort = some port) :
    e.endpoint env = .ok (.socket (e.tcpHost.getD standardHost) port) := by
  simp only [endpoint, h]

/-- What a process is started with is what the paths of the entry are added to. -/
theorem extendedAll_of_process {program : String} {arguments : List String}
    {directory : Option String} {values : Keyed OsString} {captureStderr : Bool}
    (h : e.endpoint env = .ok (.process program arguments directory values captureStderr)) :
    extendedAll env e.envPaths = .ok values := by
  unfold endpoint at h
  split at h
  · cases h
  split at h
  · cases h
  · cases h
  split at h
  · cases h
  · cases h
    assumption

theorem endpoint_of_launch (h : e.launch name env = .ok launched) :
    e.endpoint env = .ok launched.endpoint := by
  unfold launch at h
  split at h
  · cases h
  split at h
  · cases h
  · cases h
    assumption

theorem launch_of_endpoint (hl : e.languageIds ≠ []) :
    (∀ endpoint, e.endpoint env = .ok endpoint → ∃ launched, e.launch name env = .ok launched) ∧
      ∀ err, e.endpoint env = .error err → e.launch name env = .error err := by
  have hl : e.languageIds.isEmpty = false := by simpa using hl
  refine ⟨fun endpoint h => ?_, fun err h => ?_⟩ <;> simp only [launch, hl, h, Bool.false_eq_true,
    if_false]
  exact ⟨_, rfl⟩

theorem launch_of_launchable (h : e.Launchable env) (name : String) :
    ∃ launched, e.launch name env = .ok launched := by
  obtain ⟨hl, h⟩ := h
  refine Exists.elim ?_ (@launch_of_endpoint env e name hl).1
  cases hport : e.tcpPort with
  | some port => exact ⟨_, endpoint_of_port hport⟩
  | none =>
    rw [hport, Option.isSome_none] at h
    obtain ⟨⟨words, hwords, hne⟩, hadmits⟩ := h.resolve_left (by simp)
    obtain ⟨program, arguments, rfl⟩ := List.exists_cons_of_ne_nil hne
    rw [words?] at hwords
    simp only [endpoint, hport, hwords, extendedAll_of_admits hadmits]
    exact ⟨_, rfl⟩

theorem launch_of_refused (hs : e.envPaths.Sorted) (h : e.Refused env err) (name : String) :
    e.launch name env = .error err := by
  cases h with
  | noLanguages hl => simp [launch, hl]
  | missingCommand hl hport hwords =>
    refine (launch_of_endpoint hl).2 _ ?_
    rw [words?] at hwords
    cases hfound : e.command.bind (·.forSystem? env.os) with
    | none => simp only [endpoint, hport, hfound]
    | some words =>
      cases hwords words hfound
      simp only [endpoint, hport, hfound]
  | pathsRefused hl hport hwords hne hfirst =>
    refine (launch_of_endpoint hl).2 _ ?_
    obtain ⟨program, arguments, rfl⟩ := List.exists_cons_of_ne_nil hne
    rw [words?] at hwords
    simp only [endpoint, hport, hwords, extendedAll_of_firstRefused hs hfirst]

theorem launchable_or_refused (e : ServerEntry) (env : Environment) (hs : e.envPaths.Sorted) :
    e.Launchable env ∨ ∃ err, e.Refused env err := by
  by_cases hl : e.languageIds = []
  · exact .inr ⟨_, .noLanguages hl⟩
  cases hport : e.tcpPort with
  | some port => exact .inl ⟨hl, .inl (by rw [hport]; rfl)⟩
  | none =>
    by_cases hwords : ∃ words, e.words? env = some words ∧ words ≠ []
    · rcases admits_or_firstRefused env hs with hadmits | ⟨varName, hfirst⟩
      · exact .inl ⟨hl, .inr ⟨hwords, hadmits⟩⟩
      · obtain ⟨words, hwords, hne⟩ := hwords
        exact .inr ⟨_, .pathsRefused hl hport hwords hne hfirst⟩
    · refine .inr ⟨_, .missingCommand hl hport fun words hfound => ?_⟩
      by_contra hne
      exact hwords ⟨words, hfound, hne⟩

/-- The variables of a process are those of the entry, each with its paths behind what it holds. -/
theorem values_of_process (hs : e.envPaths.Sorted) {program : String} {arguments : List String}
    {directory : Option String} {values : Keyed OsString} {captureStderr : Bool}
    (h : e.endpoint env = .ok (.process program arguments directory values captureStderr)) :
    values = e.envPaths.map fun (varName, paths) => (varName, env.withPaths varName paths) := by
  have hvalues := extendedAll_of_process h
  rcases admits_or_firstRefused env hs with hadmits | ⟨varName, hfirst⟩
  · rw [extendedAll_of_admits hadmits] at hvalues
    exact (Except.ok.inj hvalues).symm
  · rw [extendedAll_of_firstRefused hs hfirst] at hvalues
    cases hvalues

/-- **Launches.** An entry with languages can be launched over its port, or if it has a command
and all its paths can be added to their variables; otherwise it is refused for the first reason
there is. A process gets each variable as it is with the paths of the entry behind it. With a port
neither the command nor the paths matter. -/
theorem launch_spec (hs : e.envPaths.Sorted) (name : String) (env : Environment) :
    ((∃ launched, e.launch name env = .ok launched) ↔ e.Launchable env) ∧
    (∀ err, e.launch name env = .error err ↔ e.Refused env err) ∧
    (∀ launched program arguments directory values captureStderr,
      e.launch name env = .ok launched →
      launched.endpoint = .process program arguments directory values captureStderr →
      values = (e.envPaths.map fun (varName, paths) => (varName, env.withPaths varName paths)) ∧
      ∀ varName paths present, (varName, paths) ∈ e.envPaths →
        env.vars.get? varName = some present →
        ∃ value, values.get? varName = some value ∧ present.bytes <+: value.bytes) ∧
    (e.tcpPort.isSome → ∀ command envPaths,
      { e with command, envPaths }.launch name env = e.launch name env) := by
  refine ⟨⟨fun ⟨launched, h⟩ => ?_, fun h => launch_of_launchable h name⟩, fun err =>
    ⟨fun h => ?_, fun h => launch_of_refused hs h name⟩, ?_, fun hport command envPaths => ?_⟩
  · refine (launchable_or_refused e env hs).resolve_right fun ⟨err, hr⟩ => ?_
    rw [launch_of_refused hs hr name] at h
    cases h
  · rcases launchable_or_refused e env hs with hl | ⟨err', hr⟩
    · obtain ⟨launched, hl⟩ := launch_of_launchable hl name
      rw [hl] at h
      cases h
    · rw [launch_of_refused hs hr name] at h
      cases h
      exact hr
  · intro launched program arguments directory values captureStderr h hprocess
    have hvalues := values_of_process hs (hprocess ▸ endpoint_of_launch h)
    refine ⟨hvalues, fun varName paths present hm hpresent => ?_⟩
    refine ⟨env.withPaths varName paths, ?_, ?_⟩
    · rw [hvalues, Keyed.get?_map env.withPaths, Keyed.get?_of_mem hs.nodup hm, Option.map_some]
    · rw [Environment.withPaths, hpresent]
      exact OsString.prefix_joined present _
  · obtain ⟨port, hport⟩ := Option.isSome_iff_exists.1 hport
    unfold launch
    rw [endpoint_of_port hport, endpoint_of_port (e := { e with command, envPaths }) hport]

/-! ## A launch -/

/-- An entry that adds paths to a variable that is set, and to one that is not. -/
def tools : ServerEntry where
  languageIds := ["python"]
  command := some (.always ["~/bin/server", "--stdio"])
  tcpPort := none
  tcpHost := none
  workDir := none
  envPaths := [("PATH", ["~/bin"]), ("PYTHONPATH", ["/lib"])]
  logStderr := false
  lenientContentLength := false
  settings := .null
  initializationOptions := none

/-- A place with empty paths in the variable that is set. -/
def workplace : Environment :=
  ⟨"linux", some "/home/user", [("PATH", "/usr/bin::/bin:")]⟩

theorem launch_spec_tools :
    tools.envPaths.Sorted ∧ ∃ launched, tools.launch "srv" workplace = .ok launched ∧
      ∃ values, launched.endpoint =
          .process "/home/user/bin/server" ["--stdio"] none values false ∧
        values = [("PATH", "/usr/bin::/bin::/home/user/bin"), ("PYTHONPATH", "/lib")] := by
  have hs : tools.envPaths.Sorted := by unfold Keyed.Sorted; decide +kernel
  have hlaunchable : tools.Launchable workplace := by
    refine ⟨by decide, .inr ⟨⟨_, rfl, by decide⟩, ?_⟩⟩
    simp only [tools, List.mem_cons, List.not_mem_nil, or_false]
    rintro varName paths (h | h) <;> cases h <;> unfold Environment.Admits <;> decide +kernel
  obtain ⟨hiff, -, hvalues, -⟩ := launch_spec hs "srv" workplace
  obtain ⟨launched, h⟩ := hiff.2 hlaunchable
  have hendpoint : ∃ values, tools.endpoint workplace =
      .ok (.process "/home/user/bin/server" ["--stdio"] none values false) := ⟨_, rfl⟩
  obtain ⟨values, hendpoint⟩ := hendpoint
  rw [endpoint_of_launch h] at hendpoint
  have hprocess := Except.ok.inj hendpoint
  refine ⟨hs, launched, h, values, hprocess, ?_⟩
  rw [(hvalues _ _ _ _ _ _ h hprocess).1]
  decide +kernel

end ServerEntry

end LanguageClient
