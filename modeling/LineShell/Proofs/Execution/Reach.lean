import LineShell.Proofs.Builtin.Reach
import LineShell.Proofs.Execution.Visit

/-! How far a line reaches. Whatever it runs, the history and the count of lines stay; the
directory, the aliases and the variables change only where a link calls the builtin that is there
for them, and among the variables only those that such links name. -/

namespace LineShell

namespace Visit

variable {σ : Type}

/-- What the first word of a link led to when the link was run. -/
def resolution (host : Host σ) (v : Visit σ) : Option Resolution :=
  v.argv.head?.map fun name =>
    (Resolution.resolve host v.before.session.environment v.before.session.directory name
      v.before.world).1

def Calls (host : Host σ) (v : Visit σ) (b : Builtin) : Prop :=
  v.resolution host = some (.builtin b)

instance (host : Host σ) (v : Visit σ) (b : Builtin) : Decidable (v.Calls host b) :=
  inferInstanceAs (Decidable (_ = _))

def assigned (host : Host σ) (v : Visit σ) : List Text :=
  match v.resolution host with
  | some (.builtin b) => b.assigned v.argv.tail
  | _ => []

theorem calls_iff {host : Host σ} {v : Visit σ} {b : Builtin} :
    v.Calls host b ↔ v.argv.head? = some b.name := by
  rw [Calls, resolution, Option.map_eq_some_iff]
  constructor
  · rintro ⟨name, hname, hresolve⟩
    rw [hname, Resolution.name_of_resolve hresolve]
  · intro hname
    exact ⟨b.name, hname, by rw [Resolution.resolve_name]⟩

theorem assigned_eq_nil {host : Host σ} {v : Visit σ}
    (h : ¬ v.Calls host .setenv ∧ ¬ v.Calls host .unsetenv ∧ ¬ v.Calls host .cd) :
    v.assigned host = [] := by
  obtain ⟨hset, hunset, hcd⟩ := h
  unfold assigned
  split
  · next b hb =>
    cases b with
    | setenv => exact absurd hb hset
    | unsetenv => exact absurd hb hunset
    | cd => exact absurd hb hcd
    | exit => rfl
    | env => rfl
    | help => rfl
    | history => rfl
    | «alias» => rfl
  · rfl

theorem assigned_of_calls {host : Host σ} {v : Visit σ} {b : Builtin} (h : v.Calls host b) :
    v.assigned host = b.assigned v.argv.tail := by
  rw [assigned, h]

end Visit

namespace Machine

variable {σ : Type} {host : Host σ} {m : Machine σ} {chain : Chain} {v : Visit σ}

theorem resolved_builtin (host : Host σ) (m : Machine σ) (b : Builtin) :
    resolved host m b.name = m := by
  rw [resolved, ask, Resolution.resolve_name]

def Told (s s' : Session) : Prop :=
  ∃ status sink complaints, s' = { s with status, sink, complaints }

theorem told_runProgram (host : Host σ) (m : Machine σ) (program : Path) (name : Text)
    (args : List Text) : Told m.session (runProgram host m program name args).2.session := by
  obtain ⟨sink, hspawn⟩ := spawn_machine host m program (name :: args)
  unfold runProgram
  split <;> rename_i hanswer <;> rw [hanswer] at hspawn <;> obtain rfl := hspawn
  · exact ⟨_, _, _, rfl⟩
  · exact ⟨_, _, _, rfl⟩

theorem visit_cases {k : Nat} (hv : v ∈ visits host m k chain) :
    (∃ b args, v.argv = b.name :: args ∧ runBuiltin host v.before b args = (v.flow, v.after)) ∨
    ((∀ b : Builtin, v.argv.head? ≠ some b.name) ∧ Told v.before.session v.after.session) := by
  obtain ⟨i, link, -, -, -, -, hargv, hrun⟩ := exists_of_mem_visits hv
  rw [hargv]
  cases h : v.before.argv link.text with
  | nil =>
    rw [runText_blank h] at hrun
    rw [← (Prod.mk.inj hrun).2]
    exact .inr ⟨fun b => nofun, _, _, _, rfl⟩
  | cons name args =>
    rw [runText_command h] at hrun
    rcases runCommand_cases host v.before name args with
      ⟨b, rfl, hb⟩ | ⟨hother, ⟨program, hp⟩ | ⟨message, status, hr⟩⟩
    · rw [resolved_builtin] at hb
      exact .inl ⟨b, args, rfl, hb.symm.trans hrun⟩
    · refine .inr ⟨fun b hb => hother b (Option.some.inj hb).symm, ?_⟩
      have htold := told_runProgram host (resolved host v.before name) program name args
      rwa [← hp, hrun] at htold
    · refine .inr ⟨fun b hb => hother b (Option.some.inj hb).symm, ?_⟩
      rw [hr] at hrun
      rw [← (Prod.mk.inj hrun).2]
      exact ⟨_, _, _, rfl⟩

theorem session_runBuiltin (host : Host σ) (m : Machine σ) (b : Builtin) (args : List Text) :
    ∃ status complaints, (runBuiltin host m b args).2.session =
      { (b.run host m args).2.session with status, complaints } := by
  unfold runBuiltin
  split <;> rename_i hrun <;> rw [hrun] <;> exact ⟨_, _, rfl⟩

theorem session_of_visit {k : Nat} (hv : v ∈ visits host m k chain) :
    (∃ b args status complaints, v.Calls host b ∧ v.assigned host = b.assigned args ∧
      v.after.session = { (b.run host v.before args).2.session with status, complaints }) ∨
    ((∀ b, ¬ v.Calls host b) ∧ Told v.before.session v.after.session) := by
  rcases visit_cases hv with ⟨b, args, hargv, hrun⟩ | ⟨hnone, htold⟩
  · have hcalls : v.Calls host b := Visit.calls_iff.2 (by rw [hargv, List.head?_cons])
    obtain ⟨status, complaints, hsession⟩ := session_runBuiltin host v.before b args
    rw [hrun] at hsession
    refine .inl ⟨b, args, status, complaints, hcalls, ?_, hsession⟩
    rw [Visit.assigned_of_calls hcalls, hargv, List.tail_cons]
  · exact .inr ⟨fun b hcalls => hnone b (Visit.calls_iff.1 hcalls), htold⟩

theorem directory_of_visit {k : Nat} (hv : v ∈ visits host m k chain) (hcd : ¬ v.Calls host .cd) :
    v.after.session.directory = v.before.session.directory := by
  rcases session_of_visit hv with ⟨b, args, _, _, hcalls, -, h⟩ | ⟨-, _, _, _, h⟩ <;> rw [h]
  have hb : b ≠ .cd := by
    rintro rfl
    exact hcd hcalls
  exact (Builtin.stays_handle host (v.before.record (.call b args)) args hb).directory

theorem aliases_of_visit {k : Nat} (hv : v ∈ visits host m k chain)
    (halias : ¬ v.Calls host .alias) :
    v.after.session.aliases = v.before.session.aliases := by
  rcases session_of_visit hv with ⟨b, args, _, _, hcalls, -, h⟩ | ⟨-, _, _, _, h⟩ <;> rw [h]
  have hb : b ≠ .alias := by
    rintro rfl
    exact halias hcalls
  exact Builtin.aliases_handle host (v.before.record (.call b args)) args hb

theorem without_of_visit {k : Nat} (hv : v ∈ visits host m k chain) :
    v.after.session.environment.vars.without (v.assigned host) =
      v.before.session.environment.vars.without (v.assigned host) := by
  rcases session_of_visit hv with ⟨b, args, _, _, -, hassigned, h⟩ | ⟨-, _, _, _, h⟩
  · rw [h, hassigned]
    exact Builtin.without_handle host (v.before.record (.call b args)) args b
  · rw [h]

theorem without_runChain (host : Host σ) (m : Machine σ) (chain : Chain) {names : List Text}
    (hnames : ∀ v ∈ visits host m 0 chain, v.assigned host ⊆ names) :
    (runChain host m chain).2.session.environment.vars.without names =
      m.session.environment.vars.without names := by
  let same (m n : Machine σ) : Prop :=
    n.session.environment.vars.without names = m.session.environment.vars.without names
  have hvisit : ∀ v ∈ visits host m 0 chain, same v.before v.after := fun v hv =>
    Table.without_eq_of_subset (without_of_visit hv) (hnames v hv)
  exact runChain_along (R := same) (fun _ => rfl) (fun _ _ _ h h' => h'.trans h) 0 hvisit

/-- A line leaves the history and the count of lines alone. The directory and the aliases change
only where a link calls `cd` or `alias`, and of the variables only those can differ, and only those
can have moved, that a call of `setenv` or `unsetenv` names, or that `cd` keeps. -/
theorem runLine_reach (host : Host σ) (m : Machine σ) (line : Text) :
    let vs := visits host m 0 (Chain.parse line)
    let s := m.session
    let s' := (runLine host m line).2.session
    let names := vs.flatMap (Visit.assigned host)
    s'.history = s.history ∧ s'.lineCount = s.lineCount ∧
    ((∀ v ∈ vs, ¬ v.Calls host .setenv ∧ ¬ v.Calls host .unsetenv ∧ ¬ v.Calls host .cd) →
      s'.environment.vars = s.environment.vars) ∧
    ((∀ v ∈ vs, ¬ v.Calls host .cd) → s'.directory = s.directory) ∧
    ((∀ v ∈ vs, ¬ v.Calls host .alias) → s'.aliases = s.aliases) ∧
    s'.environment.vars.without names = s.environment.vars.without names ∧
    (∀ name ∉ names, s'.environment.lookup name = s.environment.lookup name) ∧
    ∀ v ∈ vs,
      v.after.session.environment.vars.without (v.assigned host) =
        v.before.session.environment.vars.without (v.assigned host) ∧
      ((∀ b, ¬ v.Calls host b) → Told v.before.session v.after.session) := by
  intro vs s s' names
  have hframe : Frame (· ≠ .persist) m (runLine host m line).2 :=
    frame_runChain host m (Chain.parse line)
  have hnames : ∀ v ∈ vs, v.assigned host ⊆ names := fun v hv name hname =>
    List.mem_flatMap.2 ⟨v, hv, hname⟩
  have hwithout : s'.environment.vars.without names = s.environment.vars.without names :=
    without_runChain host m (Chain.parse line) hnames
  refine ⟨hframe.history, hframe.lineCount, fun hnone => ?_, fun hcd => ?_, fun halias => ?_,
    hwithout, fun name hname => Table.get?_of_without_eq hwithout hname, fun v hv => ?_⟩
  · have hnil : names = [] :=
      List.flatMap_eq_nil_iff.2 fun v hv => Visit.assigned_eq_nil (hnone v hv)
    rw [hnil] at hwithout
    exact Table.eq_of_without_nil hwithout
  · exact runChain_along (R := fun m n => n.session.directory = m.session.directory)
      (fun _ => rfl) (fun _ _ _ h h' => h'.trans h) 0
      fun v hv => directory_of_visit hv (hcd v hv)
  · exact runChain_along (R := fun m n => n.session.aliases = m.session.aliases)
      (fun _ => rfl) (fun _ _ _ h h' => h'.trans h) 0
      fun v hv => aliases_of_visit hv (halias v hv)
  · refine ⟨without_of_visit hv, fun hnone => ?_⟩
    rcases session_of_visit hv with ⟨b, _, _, _, hcalls, -, -⟩ | ⟨-, htold⟩
    · exact absurd hcalls (hnone b)
    · exact htold

theorem runLine_reach_idle :
    let s := (runLine Host.void idle "setenv A 1 ; nosuch && cd / || env".toList).2.session
    s.directory = ⟨[]⟩ ∧ s.aliases = {} ∧ s.environment.lookup "B".toList = none := by
  obtain ⟨-, -, -, hdirectory, haliases, -, hlookup, -⟩ :=
    runLine_reach Host.void idle "setenv A 1 ; nosuch && cd / || env".toList
  exact ⟨hdirectory (by decide), haliases (by decide), hlookup "B".toList (by decide)⟩

end Machine

end LineShell
