import LineShell.CommandLine
import LineShell.Proofs.Shell.Serving
import LineShell.Proofs.Startup.Session
import Mathlib.Algebra.Group.Nat.Defs

/-! Statuses fit into one octet. A child leaves its exit code or the number of a signal above 128,
`exit` takes one octet of its number, all other statuses are fixed, and so the status with which the
process ends is passed on by the system as it is. -/

namespace LineShell

def IsOctet (status : Int) : Prop := 0 ≤ status ∧ status ≤ 255

instance (status : Int) : Decidable (IsOctet status) := inferInstanceAs (Decidable (_ ∧ _))

theorem isOctet_natCast {k : Nat} : IsOctet k ↔ k ≤ 255 := by
  unfold IsOctet
  omega

theorem IsOctet.emod_eq {status : Int} (h : IsOctet status) : status % 256 = status :=
  Int.emod_eq_of_lt h.1 (Int.lt_add_one_of_le h.2)

theorem CommandError.isOctet_status (e : CommandError) : IsOctet e.status := by
  have hone : IsOctet 1 := by decide
  have htwo : IsOctet 2 := by decide
  cases e with
  | illegalNumber numeral => exact htwo
  | cdFailed target => exact htwo
  | _ => exact hone

theorem ShellError.isOctet_exitCode (e : ShellError) : IsOctet e.exitCode := by
  have hmissing : IsOctet 127 := by decide
  have hrefused : IsOctet 126 := by decide
  cases e with
  | flags cause => exact (by decide : IsOctet 2)
  | scriptOpen script cause =>
    rw [exitCode]
    split
    · exact hmissing
    · exact hrefused
  | io cause => exact (by decide : IsOctet 1)

namespace WaitStatus

theorem toNat_and_mask (word mask : UInt32) (k : Nat) (hmask : mask.toNat = 2 ^ k - 1) :
    (word &&& mask).toNat = word.toNat % 2 ^ k := by
  rw [UInt32.toNat_and, hmask, Nat.and_two_pow_sub_one_eq_mod]

theorem ending_eq (word : UInt32) : (WaitStatus.mk word).ending = (word &&& 0x7f).toNat :=
  (toNat_and_mask word 0x7f 7 rfl).symm

theorem ending_eq_iff {word n : UInt32} :
    (WaitStatus.mk word).ending = n.toNat ↔ word &&& 0x7f = n := by
  rw [ending_eq, UInt32.toNat_inj]

theorem or_core_and_mask (word : UInt32) : (word ||| 0x80) &&& 0x7f = word &&& 0x7f := by
  have hmod : (word.toNat ||| 128) % 2 ^ 7 = word.toNat % 2 ^ 7 ||| 128 % 2 ^ 7 :=
    Nat.or_mod_two_pow
  apply UInt32.toNat_inj.1
  rw [toNat_and_mask _ 0x7f 7 rfl, toNat_and_mask _ 0x7f 7 rfl, UInt32.toNat_or]
  exact hmod.trans (Nat.or_zero _)

theorem code_of_exited {word : UInt32} (h : word &&& 0x7f = 0) :
    (WaitStatus.mk word).code = ((word >>> 8) &&& 0xff).toNat := by
  have hending : (WaitStatus.mk word).ending = 0 := ending_eq_iff.2 h
  have hcode : ((word >>> 8) &&& 0xff).toNat = word.toNat / 256 % 256 := by
    rw [toNat_and_mask _ 0xff 8 rfl, UInt32.toNat_shiftRight, Nat.shiftRight_eq_div_pow]
    rfl
  rw [hcode]
  simp only [code, exitCode?, hending, if_true]

theorem code_of_signaled {word : UInt32} (hexited : word &&& 0x7f ≠ 0)
    (hstopped : word &&& 0x7f ≠ 0x7f) :
    (WaitStatus.mk word).code = 128 + (word &&& 0x7f).toNat := by
  have hzero : (WaitStatus.mk word).ending ≠ 0 := fun h => hexited (ending_eq_iff.1 h)
  have hones : (WaitStatus.mk word).ending ≠ 127 := fun h => hstopped (ending_eq_iff.1 h)
  have hsignal : ¬ ((WaitStatus.mk word).ending = 0 ∨ (WaitStatus.mk word).ending = 127) :=
    not_or.2 ⟨hzero, hones⟩
  rw [← ending_eq]
  simp only [code, exitCode?, signal?, if_neg hzero, if_neg hsignal]

theorem code_of_stopped {word : UInt32} (h : word &&& 0x7f = 0x7f) :
    (WaitStatus.mk word).code = 128 := by
  have hending : (WaitStatus.mk word).ending = 127 := ending_eq_iff.2 h
  simp [code, exitCode?, signal?, hending]

theorem code_le (s : WaitStatus) : s.code ≤ 255 := by
  by_cases hexited : s.word &&& 0x7f = 0
  · rw [code_of_exited hexited, UInt32.toNat_and]
    exact Nat.and_le_right
  · by_cases hstopped : s.word &&& 0x7f = 0x7f
    · rw [code_of_stopped hstopped]
      decide
    · have hlt : (s.word &&& 0x7f).toNat < 128 := by
        rw [toNat_and_mask _ 0x7f 7 rfl]
        exact Nat.mod_lt _ (by decide)
      rw [code_of_signaled hexited hstopped]
      omega

end WaitStatus

namespace Builtin

variable {σ : Type} {m : Machine σ}

theorem octet_runExit (h : IsOctet m.session.status) (args : List Text) {o : Outcome}
    (ho : (runExit m args).1 = .ok o) : ∃ status, o = .exit status ∧ IsOctet status := by
  cases args with
  | nil =>
    obtain rfl := Except.ok.inj ho
    exact ⟨m.session.status, rfl, h⟩
  | cons numeral later =>
    simp only [runExit] at ho
    split at ho
    · next n _ =>
      obtain rfl := Except.ok.inj ho
      have hlt : n % 256 < 256 := Nat.mod_lt n (by decide)
      exact ⟨(n % 256 : Nat), rfl, isOctet_natCast.2 (Nat.le_of_lt_succ hlt)⟩
    · cases ho

theorem octet_run (host : Host σ) (h : IsOctet m.session.status) (b : Builtin)
    (args : List Text) {o : Outcome} (ho : (b.run host m args).1 = .ok o) :
    ∃ status, (o = .status status ∨ o = .exit status) ∧ IsOctet status := by
  have hcalled : IsOctet (m.record (.call b args)).session.status := h
  by_cases hb : b = .exit
  · subst hb
    obtain ⟨status, rfl, hstatus⟩ := octet_runExit hcalled args ho
    exact ⟨status, .inr rfl, hstatus⟩
  · have hsettles := settles_handle lasting_frame host (m.record (.call b args)) args hb
      fun _ => moving_frame
    rcases hsettles.outcome o ho with rfl | rfl
    · exact ⟨0, .inl rfl, by decide⟩
    · exact ⟨1, .inl rfl, by decide⟩

end Builtin

namespace Machine

variable {σ : Type} {host : Host σ} {m : Machine σ}

theorem octet_refuse (m : Machine σ) (command message : Text) {status : Int}
    (h : IsOctet status) : IsOctet (m.refuse command message status).2.session.status := h

theorem octet_runBuiltin (h : IsOctet m.session.status) (b : Builtin) (args : List Text) :
    IsOctet (runBuiltin host m b args).2.session.status := by
  have hrun {o : Outcome} := Builtin.octet_run host h b args (o := o)
  unfold runBuiltin
  split <;> rename_i heq
  · obtain ⟨status, ho | ho, hoctet⟩ := hrun (congrArg Prod.fst heq)
    · rw [Outcome.status.inj ho]
      exact hoctet
    · cases ho
  · obtain ⟨status, ho | ho, hoctet⟩ := hrun (congrArg Prod.fst heq)
    · cases ho
    · rw [Outcome.exit.inj ho]
      exact hoctet
  · exact octet_refuse _ _ _ (CommandError.isOctet_status _)

theorem octet_runProgram (m : Machine σ) (program : Path) (name : Text) (args : List Text) :
    IsOctet (runProgram host m program name args).2.session.status := by
  have hcode : ∀ code, (m.spawn host program (name :: args)).1 = .ok code → code ≤ 255 := by
    intro code h
    simp only [spawn] at h
    split at h
    · cases h
    · next status _ _ _ =>
      rw [← Except.ok.inj h]
      exact status.code_le
  unfold runProgram
  split <;> rename_i heq
  · exact isOctet_natCast.2 (hcode _ (congrArg Prod.fst heq))
  · exact octet_refuse _ _ _ (by decide)

theorem octet_runCommand (h : IsOctet m.session.status) (name : Text) (args : List Text) :
    IsOctet (runCommand host m name args).2.session.status := by
  have hresolved : IsOctet (resolved host m name).session.status := h
  unfold runCommand
  split <;> rename_i heq
  · obtain rfl := congrArg Prod.snd heq
    exact octet_runBuiltin hresolved _ args
  · exact octet_runProgram _ _ name args
  · exact octet_refuse _ _ _ (by decide)
  · exact octet_refuse _ _ _ (by decide)

theorem octet_runText (h : IsOctet m.session.status) (t : Text) :
    IsOctet (runText host m t).2.session.status := by
  cases hargv : m.argv t with
  | nil => rwa [runText_blank hargv]
  | cons name args =>
    rw [runText_command hargv]
    exact octet_runCommand h name args

theorem octet_runLine (host : Host σ) (h : IsOctet m.session.status) (line : Text) :
    IsOctet (runLine host m line).2.session.status ∧
      ∀ status, (runLine host m line).1 = .exit status → IsOctet status := by
  let leads (m n : Machine σ) : Prop := IsOctet m.session.status → IsOctet n.session.status
  have hrefl : ∀ m, leads m m := fun _ hm => hm
  have htrans : ∀ m n k, leads m n → leads n k → leads m k := fun _ _ _ hn hk hm => hk (hn hm)
  have hline : IsOctet (runLine host m line).2.session.status :=
    runChain_keeps hrefl htrans (fun _ t hm => octet_runText hm t) m (Chain.parse line) h
  refine ⟨hline, fun status hexit => ?_⟩
  rwa [runLine, status_of_runChain_exit hexit] at hline

theorem octet_runLines (host : Host σ) (h : IsOctet m.session.status) (lines : List Text) :
    IsOctet (runLines host m lines).2.session.status ∧
      ∀ status, (runLines host m lines).1 = .exit status → IsOctet status := by
  induction lines generalizing m with
  | nil => exact ⟨h, fun _ hexit => nomatch hexit⟩
  | cons line later ih =>
    have hline := octet_runLine host h line
    rw [runLines]
    rcases hrun : runLine host m line with ⟨_ | status, n⟩ <;> rw [hrun] at hline
    · exact ih hline.1
    · exact hline

end Machine

namespace Shell

open Machine

variable {σ ι : Type} {host : Host σ} {src : LineSource σ ι} {m n : Machine σ} {s s' : ι}

theorem octet_obey (host : Host σ) (h : IsOctet m.session.status) (t : Text) :
    IsOctet (obey host m t).2.session.status ∧
      ∀ status, (obey host m t).1 = .exit status → IsOctet status :=
  octet_runLine (m := m.update (·.accept t)) host h t

theorem Obeyed.octet {lines : List Text} (h : Obeyed host src m s lines n s')
    (hm : IsOctet m.session.status) : IsOctet n.session.status := by
  induction h with
  | nil m s => exact hm
  | @line _ _ _ _ _ _ _ t _ hrequest hobey _ ih =>
    rw [← hrequest.session] at hm
    have hline := octet_obey host hm t
    rw [hobey] at hline
    exact ih hline.1

theorem Ends.octet {last : List Text} {result : Except IoError Int}
    (h : Ends host src m s last result n s') (hm : IsOctet m.session.status) :
    IsOctet n.session.status ∧ ∀ status, result = .ok status → IsOctet status := by
  cases h with
  | @exit k _ _ t status hrequest hobey =>
    rw [← hrequest.session] at hm
    have hline := octet_obey host hm t
    rw [hobey] at hline
    exact ⟨hline.1, fun c hc => Except.ok.inj hc ▸ hline.2 status rfl⟩
  | finished hrequest =>
    rw [hrequest.session]
    exact ⟨hm, fun c hc => Except.ok.inj hc ▸ hm⟩
  | failed hrequest =>
    rw [hrequest.session]
    exact ⟨hm, fun c hc => nomatch hc⟩

theorem octet_run (hm : IsOctet m.session.status) (feed : Feed) {status : Int}
    (h : (run host m feed).result = .ok status) : IsOctet status := by
  obtain ⟨i, hi⟩ := exists_requestUpTo_source host m feed
  obtain ⟨lines, n, rest, last, -, hlines, hends⟩ := concluded_of_requestUpTo hi
  exact (hends.octet (hlines.octet hm)).2 status h

end Shell

namespace CommandLine

variable {σ : Type} {host : Host σ} {inv : Invocation} {w : σ}

theorem octet_runShell (host : Host σ) (inv : Invocation) (w : σ) :
    IsOctet (runShell host inv w).code := by
  simp only [runShell]
  split
  · exact ShellError.isOctet_exitCode _
  · next m source hboot =>
    have hzero : IsOctet 0 := by decide
    have hm : IsOctet m.session.status := by
      obtain ⟨⟨environment, aliases, hsession⟩, -⟩ := Boot.session_boot hboot
      rw [hsession]
      exact hzero
    cases hresult : (Shell.run host m source.feed).result with
    | ok status => exact Shell.octet_run hm source.feed hresult
    | error e => exact ShellError.isOctet_exitCode (.io e)

theorem octet_run (host : Host σ) (inv : Invocation) (args : List Text) (w : σ) :
    IsOctet (run host inv args w).code := by
  have hzero : IsOctet 0 := by decide
  unfold run
  split
  · next cause _ _ => exact ShellError.isOctet_exitCode (.flags cause)
  · split
    · exact hzero
    · split
      · exact hzero
      · exact octet_runShell host _ w

end CommandLine

/-- Every status that a session has in a run of lines is an octet if its first one is, and so are
those that lines end it with. A wait status gives the exit code of the child, or 128 and the number
of the signal that it died from, or 128. The status of the whole process, which starts with zero, is
passed on by the system as it is. -/
theorem statuses_are_octets {σ : Type} (host : Host σ) (m : Machine σ)
    (hstart : IsOctet m.session.status) :
    (∀ lines, IsOctet (Machine.runLines host m lines).2.session.status ∧
      ∀ status, (Machine.runLines host m lines).1 = .exit status → IsOctet status) ∧
    (∀ (ι : Type) (src : LineSource σ ι) s lines n s', Shell.Obeyed host src m s lines n s' →
      IsOctet n.session.status ∧
      ∀ last result k s'', Shell.Ends host src n s' last result k s'' →
        IsOctet k.session.status ∧ ∀ status, result = .ok status → IsOctet status) ∧
    (∀ word : UInt32,
      let code := (WaitStatus.mk word).code
      let ending := word &&& 0x7f
      code ≤ 255 ∧ (ending = 0 → code = ((word >>> 8) &&& 0xff).toNat) ∧
      (ending ≠ 0 → ending ≠ 0x7f →
        code = 128 + ending.toNat ∧ (WaitStatus.mk (word ||| 0x80)).code = code) ∧
      (ending = 0x7f → code = 128)) ∧
    ∀ inv args w,
      let code := (CommandLine.run host inv args w).code
      IsOctet code ∧ code % 256 = code := by
  refine ⟨fun lines => Machine.octet_runLines host hstart lines,
    fun ι src s lines n s' hlines => ?_, fun word => ?_, fun inv args w => ?_⟩
  · have hn : IsOctet n.session.status := hlines.octet hstart
    exact ⟨hn, fun last result k s'' hends => hends.octet hn⟩
  · intro code ending
    refine ⟨WaitStatus.code_le ⟨word⟩, WaitStatus.code_of_exited, fun hexited hstopped => ?_,
      WaitStatus.code_of_stopped⟩
    have hcode : code = 128 + ending.toNat := WaitStatus.code_of_signaled hexited hstopped
    have hcore : (word ||| 0x80) &&& 0x7f = ending := WaitStatus.or_core_and_mask word
    have hdumped : (WaitStatus.mk (word ||| 0x80)).code = 128 + ending.toNat := by
      rw [WaitStatus.code_of_signaled (hcore ▸ hexited) (hcore ▸ hstopped), hcore]
    exact ⟨hcode, hdumped.trans hcode.symm⟩
  · have hcode := CommandLine.octet_run host inv args w
    exact ⟨hcode, hcode.emod_eq⟩

def Host.uniform (word : UInt32) : Host Unit where
  __ := Host.void
  isExecutable _ w := (true, w)
  launch _ w := (.ok (⟨word⟩, []), w)

theorem statuses_are_octets_killed :
    IsOctet Machine.idle.session.status ∧
    (Machine.runLines (Host.uniform 0xffff8b) Machine.idle ["./x".toList, "exit".toList]).1 =
      .exit 139 ∧
    IsOctet 139 ∧ (WaitStatus.mk 0xffff8b).code = 139 ∧
    ∀ inv args, IsOctet (CommandLine.run (Host.uniform 0xffff8b) inv args ()).code := by
  have hidle : IsOctet Machine.idle.session.status := by decide
  obtain ⟨hlines, -, hwords, hprocess⟩ :=
    statuses_are_octets (Host.uniform 0xffff8b) Machine.idle hidle
  have hexit : (Machine.runLines (Host.uniform 0xffff8b) Machine.idle
      ["./x".toList, "exit".toList]).1 = .exit 139 := by decide
  obtain ⟨-, -, hkilled, -⟩ := hwords 0xffff8b
  exact ⟨hidle, hexit, (hlines _).2 139 hexit, (hkilled (by decide) (by decide)).1,
    fun inv args => (hprocess inv args ()).1⟩

end LineShell
