import LineShell.Proofs.Execution.Command
import LineShell.Proofs.Execution.Sequence

/-! The walk along a chain, link by link: which links are run, what each of them does, and where
the walk ends. -/

namespace LineShell

/-- A link that was run: where it stands, the machine that it met, the words it was expanded to
there, and what it led to. -/
structure Visit (σ : Type) where
  position : Nat
  before : Machine σ
  argv : List Text
  flow : Flow
  after : Machine σ

namespace Machine

variable {σ : Type}

variable {host : Host σ} {m n : Machine σ} {chain : Chain} {link : Link}

def visits (host : Host σ) (m : Machine σ) (position : Nat) : Chain → List (Visit σ)
  | [] => []
  | link :: later =>
    if link.operator.admits m.session.status then
      match runText host m link.text with
      | (.exit status, after) => [⟨position, m, m.argv link.text, .exit status, after⟩]
      | (.continue, after) =>
        ⟨position, m, m.argv link.text, .continue, after⟩ :: visits host after (position + 1) later
    else visits host m (position + 1) later

def lastStatus (initial : Int) (vs : List (Visit σ)) : Int :=
  ((vs.filter fun v => v.argv ≠ []).getLast?.map fun v => v.after.session.status).getD initial

theorem lastStatus_cons (initial : Int) (v : Visit σ) (vs : List (Visit σ)) :
    lastStatus initial (v :: vs) =
      lastStatus (if v.argv = [] then initial else v.after.session.status) vs := by
  by_cases h : v.argv = []
  · simp [lastStatus, h]
  · cases hvs : (vs.filter fun v => v.argv ≠ []).getLast? <;>
      simp_all [lastStatus, List.getLast?_cons]

theorem runText_blank {t : Text} (h : m.argv t = []) : runText host m t = (.continue, m) := by
  rw [runText, h]

theorem runText_command {t name : Text} {args : List Text} (h : m.argv t = name :: args) :
    runText host m t = runCommand host m name args := by
  rw [runText, h]

theorem visits_cases (host : Host σ) (m : Machine σ) (k : Nat) (link : Link) (later : Chain) :
    (link.operator.admits m.session.status = false ∧
      runChain host m (link :: later) = runChain host m later ∧
      visits host m k (link :: later) = visits host m (k + 1) later) ∨
    (link.operator.admits m.session.status = true ∧
      ((∃ status after, runText host m link.text = (.exit status, after) ∧
        runChain host m (link :: later) = (.exit status, after) ∧
        visits host m k (link :: later) = [⟨k, m, m.argv link.text, .exit status, after⟩]) ∨
      ∃ after, runText host m link.text = (.continue, after) ∧
        runChain host m (link :: later) = runChain host after later ∧
        visits host m k (link :: later) =
          ⟨k, m, m.argv link.text, .continue, after⟩ :: visits host after (k + 1) later)) := by
  rw [runChain_cons, runLink, visits]
  by_cases h : link.operator.admits m.session.status = true
  · rw [if_pos h, if_pos h]
    refine .inr ⟨h, ?_⟩
    rcases runText host m link.text with ⟨_ | status, after⟩
    · exact .inr ⟨after, rfl, rfl, rfl⟩
    · exact .inl ⟨status, after, rfl, rfl, rfl⟩
  · rw [if_neg h, if_neg h]
    exact .inl ⟨eq_false_of_ne_true h, rfl, rfl⟩

theorem le_position (k : Nat) : ∀ v ∈ visits host m k chain, k ≤ v.position := by
  induction chain generalizing m k with
  | nil => exact fun _ hv => absurd hv List.not_mem_nil
  | cons link later ih =>
    have hlater (n : Machine σ) : ∀ v ∈ visits host n (k + 1) later, k ≤ v.position :=
      fun v hv => (Nat.le_succ k).trans (ih (k + 1) v hv)
    rcases visits_cases host m k link later with
      ⟨-, -, h⟩ | ⟨-, ⟨status, after, -, -, h⟩ | ⟨after, -, -, h⟩⟩ <;> rw [h]
    · exact hlater m
    · simp
    · exact List.forall_mem_cons.2 ⟨Nat.le_refl k, hlater after⟩

theorem pairwise_visits (k : Nat) :
    (visits host m k chain).Pairwise fun v w => v.position < w.position := by
  induction chain generalizing m k with
  | nil => exact List.Pairwise.nil
  | cons link later ih =>
    rcases visits_cases host m k link later with
      ⟨-, -, h⟩ | ⟨-, ⟨status, after, -, -, h⟩ | ⟨after, -, -, h⟩⟩ <;> rw [h]
    · exact ih (k + 1)
    · exact List.pairwise_singleton _ _
    · exact List.pairwise_cons.2 ⟨fun w hw => le_position (k + 1) w hw, ih (k + 1)⟩

theorem visits_take (k i : Nat) :
    visits host m k (chain.take i) =
      (visits host m k chain).filter fun v => v.position < k + i := by
  induction chain generalizing m k i with
  | nil => simp [visits]
  | cons link later ih =>
    cases i with
    | zero =>
      refine (List.filter_eq_nil_iff.2 fun v hv => ?_).symm
      have := le_position k v hv
      simp [this]
    | succ i =>
      have hi : k + (i + 1) = k + 1 + i := by omega
      rw [List.take_succ_cons, hi, visits, visits]
      by_cases h : link.operator.admits m.session.status = true
      · rw [if_pos h, if_pos h]
        have hk : k < k + 1 + i := by omega
        rcases runText host m link.text with ⟨_ | status, after⟩
        · rw [List.filter_cons_of_pos (by simpa using hk), ← ih]
        · rw [List.filter_cons_of_pos (by simpa using hk), List.filter_nil]
      · rw [if_neg h, if_neg h]
        exact ih (k + 1) i

theorem runChain_continue_iff (k : Nat) :
    (runChain host m chain).1 = .continue ↔ ∀ v ∈ visits host m k chain, v.flow = .continue := by
  induction chain generalizing m k with
  | nil => simp [runChain, visits]
  | cons link later ih =>
    rcases visits_cases host m k link later with
      ⟨-, hrun, h⟩ | ⟨-, ⟨status, after, -, hrun, h⟩ | ⟨after, -, hrun, h⟩⟩ <;> rw [h, hrun]
    · exact ih (k + 1)
    · simp
    · rw [List.forall_mem_cons, ih (k + 1)]
      simp

theorem status_runChain (k : Nat) :
    (runChain host m chain).2.session.status =
      lastStatus m.session.status (visits host m k chain) := by
  induction chain generalizing m k with
  | nil => rfl
  | cons link later ih =>
    -- a link with nothing to run passes on the status that it has met
    have hpassed {flow : Flow} {after : Machine σ} (h : runText host m link.text = (flow, after)) :
        after.session.status =
          if m.argv link.text = [] then m.session.status else after.session.status := by
      split
      · rename_i hblank
        rw [runText_blank hblank] at h
        rw [(Prod.mk.inj h).2]
      · rfl
    rcases visits_cases host m k link later with
      ⟨-, hrun, h⟩ | ⟨-, ⟨status, after, htext, hrun, h⟩ | ⟨after, htext, hrun, h⟩⟩ <;>
      rw [h, hrun]
    · exact ih (k + 1)
    · rw [lastStatus_cons, ← hpassed htext]
      rfl
    · rw [lastStatus_cons, ← hpassed htext]
      exact ih (k + 1)

theorem runChain_take_succ {i : Nat} (h : chain[i]? = some link) :
    runChain host m (chain.take (i + 1)) =
      proceed (runChain host m (chain.take i)) fun m => runLink host m link := by
  rw [List.take_add_one, h, Option.toList_some, runChain_append]
  congr 1
  funext n
  rw [runChain_cons]
  exact proceed_continue _

theorem exists_of_mem_visits {k : Nat} {v : Visit σ} (hv : v ∈ visits host m k chain) :
    ∃ i link, v.position = k + i ∧ chain[i]? = some link ∧
      runChain host m (chain.take i) = (.continue, v.before) ∧
      link.operator.admits v.before.session.status = true ∧
      v.argv = v.before.argv link.text ∧
      runText host v.before link.text = (v.flow, v.after) := by
  induction chain generalizing m k with
  | nil => exact absurd hv List.not_mem_nil
  | cons link later ih =>
    have hlater {after : Machine σ} (hv : v ∈ visits host after (k + 1) later)
        (hrun : ∀ c, runChain host m (link :: c) = runChain host after c) :
        ∃ i l, v.position = k + i ∧ (link :: later)[i]? = some l ∧
          runChain host m ((link :: later).take i) = (.continue, v.before) ∧
          l.operator.admits v.before.session.status = true ∧
          v.argv = v.before.argv l.text ∧
          runText host v.before l.text = (v.flow, v.after) := by
      obtain ⟨i, l, hpos, hl, hbefore, hrest⟩ := ih hv
      refine ⟨i + 1, l, by omega, by simpa using hl, ?_, hrest⟩
      rw [List.take_succ_cons, hrun, hbefore]
    rcases visits_cases host m k link later with
      ⟨hadmits, -, h⟩ | ⟨hadmits, ⟨status, after, htext, -, h⟩ | ⟨after, htext, -, h⟩⟩ <;>
      rw [h] at hv
    · refine hlater hv fun c => ?_
      rw [runChain_cons, runLink, if_neg (by simp [hadmits])]
      rfl
    · obtain rfl := List.mem_singleton.1 hv
      exact ⟨0, link, rfl, rfl, rfl, hadmits, rfl, htext⟩
    · rcases List.mem_cons.1 hv with rfl | hv
      · exact ⟨0, link, rfl, rfl, rfl, hadmits, rfl, htext⟩
      · refine hlater hv fun c => ?_
        rw [runChain_cons, runLink, if_pos hadmits, htext]
        rfl

theorem exists_visit {k i : Nat} (hi : chain[i]? = some link)
    (hrun : runChain host m (chain.take i) = (.continue, n))
    (hadmits : link.operator.admits n.session.status = true) :
    ∃ v ∈ visits host m k chain, v.position = k + i := by
  induction chain generalizing m k i with
  | nil => simp at hi
  | cons first later ih =>
    cases i with
    | zero =>
      obtain rfl : first = link := by simpa using hi
      obtain rfl : m = n := (Prod.mk.inj hrun).2
      rcases visits_cases host m k first later with
        ⟨hskip, -, -⟩ | ⟨-, ⟨status, after, -, -, h⟩ | ⟨after, -, -, h⟩⟩
      · rw [hskip] at hadmits
        exact nomatch hadmits
      · rw [h]
        exact ⟨_, List.mem_cons_self, rfl⟩
      · rw [h]
        exact ⟨_, List.mem_cons_self, rfl⟩
    | succ i =>
      have hk : k + (i + 1) = k + 1 + i := by omega
      have hi' : later[i]? = some link := by simpa using hi
      rw [List.take_succ_cons] at hrun
      rw [hk]
      rcases visits_cases host m k first (later.take i) with
        ⟨hskip, hrun', -⟩ | ⟨hadm, ⟨status, after, htext, hrun', -⟩ | ⟨after, htext, hrun', -⟩⟩ <;>
        rw [hrun'] at hrun
      · rw [visits, if_neg (by simp [hskip])]
        exact ih hi' hrun
      · exact nomatch hrun
      · rw [visits, if_pos hadm, htext]
        obtain ⟨v, hv, hpos⟩ := ih (k := k + 1) hi' hrun
        exact ⟨v, List.mem_cons_of_mem _ hv, hpos⟩

theorem flow_exit_iff {v : Visit σ} {text : Text} (hargv : v.argv = v.before.argv text)
    (hrun : runText host v.before text = (v.flow, v.after)) (status : Int) :
    v.flow = .exit status ↔ IsExit v.before v.argv status := by
  have hflow : v.flow = (runText host v.before text).1 := by rw [hrun]
  rw [hflow, hargv]
  cases h : v.before.argv text with
  | nil =>
    rw [runText_blank h]
    constructor
    · exact fun hc => nomatch hc
    · rintro ⟨args, hc, -⟩
      exact nomatch hc
  | cons name args => rw [runText_command h, runCommand_exit_iff]

theorem ran_runText (host : Host σ) (m : Machine σ) (text : Text) :
    Ran (m.argv text) m (runText host m text) := by
  cases h : m.argv text with
  | nil =>
    rw [runText_blank h]
    exact ⟨Frame.refl m, [], rfl, .inl rfl⟩
  | cons name args =>
    rw [runText_command h]
    exact ran_runCommand host m name args

theorem runChain_along {R : Machine σ → Machine σ → Prop} (hrefl : ∀ m, R m m)
    (htrans : ∀ m n k, R m n → R n k → R m k) (k : Nat)
    (hvisit : ∀ v ∈ visits host m k chain, R v.before v.after) :
    R m (runChain host m chain).2 := by
  induction chain generalizing m k with
  | nil => exact hrefl m
  | cons link later ih =>
    rcases visits_cases host m k link later with
      ⟨-, h, hv⟩ | ⟨-, ⟨status, after, -, h, hv⟩ | ⟨after, -, h, hv⟩⟩ <;>
      rw [h] <;> rw [hv] at hvisit
    · exact ih (k + 1) hvisit
    · exact hvisit _ List.mem_cons_self
    · obtain ⟨hfirst, hlater⟩ := List.forall_mem_cons.1 hvisit
      exact htrans _ _ _ hfirst (ih (k + 1) hlater)

theorem runChain_keeps {R : Machine σ → Machine σ → Prop} (hrefl : ∀ m, R m m)
    (htrans : ∀ m n k, R m n → R n k → R m k) (htext : ∀ m t, R m (runText host m t).2)
    (m : Machine σ) (chain : Chain) : R m (runChain host m chain).2 := by
  refine runChain_along hrefl htrans 0 fun v hv => ?_
  obtain ⟨_, link, -, -, -, -, -, hrun⟩ := exists_of_mem_visits hv
  have hlink := htext v.before link.text
  rwa [hrun] at hlink

theorem frame_runChain (host : Host σ) (m : Machine σ) (chain : Chain) :
    Frame (· ≠ .persist) m (runChain host m chain).2 :=
  runChain_keeps Frame.refl (fun _ _ _ => Frame.trans)
    (fun m t => (ran_runText host m t).frame) m chain

theorem runChain_take_exit {i j : Nat} (hij : i ≤ j) {status : Int}
    (h : runChain host m (chain.take i) = (.exit status, n)) :
    runChain host m (chain.take j) = (.exit status, n) := by
  have htake : chain.take j = chain.take i ++ (chain.take j).drop i := by
    conv_lhs => rw [← List.take_append_drop i (chain.take j), List.take_take, Nat.min_eq_left hij]
  rw [htake, runChain_append, h]
  rfl

end Machine

/-- The visit tells what running the chain does with the text that stands at its position: the
words are those of the text as the links before have left the session, and no command but these
words is started. -/
structure Visit.Follows {σ : Type} (host : Host σ) (m : Machine σ) (chain : Chain) (text : Text)
    (v : Visit σ) : Prop where
  before : Machine.runChain host m (chain.take v.position) = (.continue, v.before)
  argv : v.argv = Text.words (v.before.expander.expand text)
  after : Machine.runChain host m (chain.take (v.position + 1)) = (v.flow, v.after)
  started : ∃ new, v.after.past = new ++ v.before.past ∧
    (new.filterMap Event.command? = [] ∨ new.filterMap Event.command? = [v.argv])

namespace Machine

variable {σ : Type} {host : Host σ} {m n : Machine σ} {chain : Chain} {link : Link}

theorem follows_of_mem_visits {v : Visit σ} (hv : v ∈ visits host m 0 chain) :
    ∃ link, chain[v.position]? = some link ∧ v.Follows host m chain link.text := by
  obtain ⟨i, link, hpos, hlink, hbefore, hadmits, hargv, hrun⟩ := exists_of_mem_visits hv
  obtain rfl : v.position = i := by omega
  refine ⟨link, hlink, hbefore, hargv, ?_, ?_⟩
  · rw [runChain_take_succ hlink, hbefore, proceed, runLink, if_pos hadmits, hrun]
  · have hran := (ran_runText host v.before link.text).started
    rw [hrun, ← hargv] at hran
    exact hran

theorem visited_iff {i : Nat} (hi : chain[i]? = some link) :
    (∃ v ∈ visits host m 0 chain, v.position = i) ↔
      (runChain host m (chain.take i)).1 = .continue ∧
        link.operator.admits (runChain host m (chain.take i)).2.session.status = true := by
  constructor
  · rintro ⟨v, hv, rfl⟩
    obtain ⟨j, l, hpos, hl, hbefore, hadmits, -, -⟩ := exists_of_mem_visits hv
    obtain rfl : v.position = j := by omega
    obtain rfl : link = l := by rwa [hi, Option.some.injEq] at hl
    rw [hbefore]
    exact ⟨rfl, hadmits⟩
  · rintro ⟨hflow, hadmits⟩
    obtain ⟨v, hv, hpos⟩ := exists_visit (k := 0) hi (Prod.ext hflow rfl) hadmits
    exact ⟨v, hv, by omega⟩

theorem exit_iff_of_mem_visits {v : Visit σ} (hv : v ∈ visits host m 0 chain) (status : Int) :
    v.flow = .exit status ↔ IsExit v.before v.argv status := by
  obtain ⟨-, link, -, -, -, -, hargv, hrun⟩ := exists_of_mem_visits hv
  exact flow_exit_iff hargv hrun status

theorem continue_iff_of_mem_visits {v : Visit σ} (hv : v ∈ visits host m 0 chain) :
    v.flow = .continue ↔ ∀ status, ¬ IsExit v.before v.argv status := by
  rcases h : v.flow with _ | status
  · refine ⟨fun _ status hexit => ?_, fun _ => rfl⟩
    rw [← exit_iff_of_mem_visits hv, h] at hexit
    exact nomatch hexit
  · refine ⟨fun hc => (nomatch hc), fun hno => ?_⟩
    exact absurd ((exit_iff_of_mem_visits hv status).1 h) (hno status)

theorem walk_continues_iff :
    (runChain host m chain).1 = .continue ↔
      ∀ v ∈ visits host m 0 chain, ∀ status, ¬ IsExit v.before v.argv status := by
  rw [runChain_continue_iff 0]
  exact forall₂_congr fun v hv => continue_iff_of_mem_visits hv

theorem status_of_mem_visits {v : Visit σ} (hv : v ∈ visits host m 0 chain) {status : Int}
    (h : v.flow = .exit status) : v.after.session.status = status := by
  obtain ⟨-, link, -, -, -, -, hargv, hrun⟩ := exists_of_mem_visits hv
  obtain ⟨args, hexit, -⟩ := (flow_exit_iff hargv hrun status).1 h
  rw [runText_command (hargv ▸ hexit)] at hrun
  have hflow : (runCommand host v.before Builtin.exit.name args).1 = .exit status := by rw [hrun, h]
  have hstatus := status_of_exit host v.before _ args hflow
  rwa [hrun] at hstatus

theorem visits_end {v : Visit σ} (hv : v ∈ visits host m 0 chain) {status : Int}
    (h : IsExit v.before v.argv status) :
    runChain host m chain = (.exit status, v.after) ∧ v.after.session.status = status ∧
      ∀ w ∈ visits host m 0 chain, w.position ≤ v.position := by
  obtain ⟨link, hlink, hfollows⟩ := follows_of_mem_visits hv
  have hafter := hfollows.after
  rw [(exit_iff_of_mem_visits hv status).2 h] at hafter
  have hlater {j : Nat} (hj : v.position + 1 ≤ j) := runChain_take_exit hj hafter
  refine ⟨?_, status_of_mem_visits hv ((exit_iff_of_mem_visits hv status).2 h), fun w hw => ?_⟩
  · have hwhole := hlater (Nat.succ_le_of_lt (List.getElem?_eq_some_iff.1 hlink).1)
    rwa [List.take_length] at hwhole
  · -- a link behind would have been met by a walk that had ended
    by_contra hlt
    obtain ⟨l, -, hw'⟩ := follows_of_mem_visits hw
    have hbefore := hw'.before
    rw [hlater (by omega)] at hbefore
    exact nomatch (Prod.mk.inj hbefore).1

theorem admits_iff (o : Operator) (status : Int) :
    o.admits status = true ↔
      o = .first ∨ o = .seq ∨ o = .and ∧ status = 0 ∨ o = .or ∧ status ≠ 0 := by
  cases o <;> simp [Operator.admits]

theorem runChain_take_unchanged {i : Nat} (hi : chain[i]? = some link)
    (h : ∀ v ∈ visits host m 0 chain, v.position = i → v.argv = []) :
    runChain host m (chain.take (i + 1)) = runChain host m (chain.take i) := by
  rw [runChain_take_succ hi]
  rcases hrun : runChain host m (chain.take i) with ⟨_ | status, n⟩
  · rw [proceed, runLink]
    split
    · rename_i hadmits
      obtain ⟨v, hv, hpos⟩ := exists_visit (k := 0) hi hrun hadmits
      obtain ⟨j, l, hj, hl, hbefore, -, hargv, -⟩ := exists_of_mem_visits hv
      obtain rfl : i = j := by omega
      obtain rfl : link = l := by rwa [hi, Option.some.injEq] at hl
      obtain rfl : n = v.before := by rw [hrun] at hbefore; exact (Prod.mk.inj hbefore).2
      exact runText_blank (hargv ▸ h v hv (by omega))
    · rfl
  · rfl

theorem runChain_exit_iff (status : Int) :
    (runChain host m chain).1 = .exit status ↔
      ∃ v ∈ visits host m 0 chain, IsExit v.before v.argv status := by
  constructor
  · intro h
    have hends : ¬ (runChain host m chain).1 = .continue := by simp [h]
    rw [walk_continues_iff] at hends
    push Not at hends
    obtain ⟨v, hv, c, hexit⟩ := hends
    have hc : Flow.exit c = .exit status := by rw [← h, (visits_end hv hexit).1]
    exact ⟨v, hv, Flow.exit.inj hc ▸ hexit⟩
  · rintro ⟨v, hv, hexit⟩
    rw [(visits_end hv hexit).1]

theorem status_of_runChain_exit {status : Int} (h : (runChain host m chain).1 = .exit status) :
    (runChain host m chain).2.session.status = status := by
  obtain ⟨v, hv, hexit⟩ := (runChain_exit_iff status).1 h
  obtain ⟨hrun, hstatus, -⟩ := visits_end hv hexit
  rw [hrun]
  exact hstatus

/-- A chain is walked from left to right. A link is run just if no link before it was an `exit`
that was carried out and its operator admits the status that the last command before it has left;
what is run is the command that the link expands to there, and nothing else is ever changed. -/
theorem runChain_walk (host : Host σ) (m : Machine σ) (chain : Chain) :
    ((visits host m 0 chain).Pairwise fun v w => v.position < w.position) ∧
    (∀ v ∈ visits host m 0 chain,
      ∃ link, chain[v.position]? = some link ∧ v.Follows host m chain link.text) ∧
    (∀ i link, chain[i]? = some link →
      let earlier := (visits host m 0 chain).filter fun v => v.position < i
      let status := lastStatus m.session.status earlier
      ((∃ v ∈ visits host m 0 chain, v.position = i) ↔
        (∀ v ∈ earlier, ∀ c, ¬ IsExit v.before v.argv c) ∧
          (link.operator = .first ∨ link.operator = .seq ∨ link.operator = .and ∧ status = 0 ∨
            link.operator = .or ∧ status ≠ 0)) ∧
      ((∀ v ∈ visits host m 0 chain, v.position = i → v.argv = []) →
        runChain host m (chain.take (i + 1)) = runChain host m (chain.take i))) ∧
    (∀ c, (runChain host m chain).1 = .exit c ↔
      ∃ v ∈ visits host m 0 chain, IsExit v.before v.argv c) ∧
    ∀ v ∈ visits host m 0 chain, ∀ c, IsExit v.before v.argv c →
      runChain host m chain = (.exit c, v.after) ∧ v.after.session.status = c ∧
        ∀ w ∈ visits host m 0 chain, w.position ≤ v.position := by
  refine ⟨pairwise_visits 0, fun v hv => follows_of_mem_visits hv, fun i link hi => ⟨?_, ?_⟩,
    runChain_exit_iff, fun v hv c h => visits_end hv h⟩
  · have hearlier : visits host m 0 (chain.take i) =
        (visits host m 0 chain).filter fun v => v.position < i := by
      rw [visits_take, Nat.zero_add]
    rw [visited_iff hi, walk_continues_iff, status_runChain 0, admits_iff, hearlier]
  · exact fun h => runChain_take_unchanged hi h

-- there is no precedence: the last link looks past the one that was skipped
example : (visits Host.void idle 0 (Chain.parse "cd / && env || exit ; env".toList)).map
    (fun v => (v.position, v.argv, v.flow)) =
      [(0, ["cd".toList, "/".toList], .continue), (2, ["exit".toList], .exit 2)] := by
  decide

end Machine

end LineShell
