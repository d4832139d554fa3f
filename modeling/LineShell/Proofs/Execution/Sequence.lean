import LineShell.Execution
import LineShell.Proofs.Chain.Joining

/-! Lines one after another and the same lines joined by semicolons have the same effect. -/

namespace LineShell

def Host.void : Host Unit where
  isPresent _ w := (false, w)
  isExecutable _ w := (false, w)
  isSearchable _ w := (false, w)
  canonicalize _ w := (none, w)
  list _ w := (none, w)
  read _ w := (.error (.system .noSuchFile), w)
  save _ _ w := (.error (.system .permissionDenied), w)
  launch _ w := (.error (.system .noSuchFile), w)

namespace Machine

def idle : Machine Unit where
  session :=
    { program := "hsh".toList, pid := 1, environment := {}, history := .inMemory 10,
      directory := ⟨[]⟩ }
  world := ()

variable {σ : Type}

def proceed (r : Flow × Machine σ) (next : Machine σ → Flow × Machine σ) : Flow × Machine σ :=
  match r with
  | (.exit status, m) => (.exit status, m)
  | (.continue, m) => next m

theorem proceed_continue (r : Flow × Machine σ) : proceed r (fun m => (.continue, m)) = r := by
  rcases r with ⟨_ | status, m⟩ <;> rfl

theorem proceed_proceed (r : Flow × Machine σ) (f g : Machine σ → Flow × Machine σ) :
    proceed (proceed r f) g = proceed r fun m => proceed (f m) g := by
  rcases r with ⟨_ | status, m⟩ <;> rfl

theorem runChain_cons (host : Host σ) (m : Machine σ) (link : Link) (later : Chain) :
    runChain host m (link :: later) =
      proceed (runLink host m link) fun m => runChain host m later := by
  rw [runChain]
  rcases runLink host m link with ⟨_ | status, n⟩ <;> rfl

theorem runChain_append (host : Host σ) (m : Machine σ) (earlier later : Chain) :
    runChain host m (earlier ++ later) =
      proceed (runChain host m earlier) fun m => runChain host m later := by
  induction earlier generalizing m with
  | nil => rfl
  | cons link rest ih =>
    rw [List.cons_append, runChain_cons, runChain_cons, proceed_proceed]
    congr 1
    funext n
    exact ih n

theorem runChain_markFirst (host : Host σ) (m : Machine σ) {c : Chain}
    (hc : Chain.Unconditional c) : runChain host m (Chain.markFirst c) = runChain host m c := by
  cases c with
  | nil => rfl
  | cons link later =>
    have hadmits : link.operator.admits m.session.status = true := by
      rcases hc link rfl with h | h <;> rw [h] <;> rfl
    rw [Chain.markFirst, runChain_cons, runChain_cons, runLink, runLink, hadmits]
    rfl

theorem runChain_markFirst_append (host : Host σ) (m : Machine σ) (earlier : Chain) {later : Chain}
    (h : Chain.Unconditional later) :
    runChain host m (Chain.markFirst (earlier ++ later)) =
      proceed (runChain host m (Chain.markFirst earlier)) fun m =>
        runChain host m (Chain.markFirst later) := by
  cases earlier with
  | nil => rfl
  | cons link rest =>
    have happend : Chain.markFirst (link :: rest ++ later) =
        Chain.markFirst (link :: rest) ++ later := rfl
    rw [happend, runChain_append]
    congr 1
    funext n
    rw [runChain_markFirst host n h]

theorem runLine_append_seq (host : Host σ) (m : Machine σ) {a b : Text}
    (ha : Chain.CommentFree a) (hb : Chain.Joinable b) :
    runLine host m (a ++ Operator.seq.joint ++ b) =
      proceed (runLine host m a) fun m => runLine host m b := by
  have hlater := Chain.unconditional_linksAfter hb
  have hlinks := Chain.linksAfter_append_joint .first ha (by decide : Operator.seq ≠ .first) b
  rw [runLine, ← Chain.markFirst_linksAfter .first, hlinks,
    runChain_markFirst_append host m _ hlater, Chain.markFirst_linksAfter,
    Chain.markFirst_linksAfter]
  rfl

def runLines (host : Host σ) (m : Machine σ) : List Text → Flow × Machine σ
  | [] => (.continue, m)
  | line :: later => proceed (runLine host m line) fun m => runLines host m later

theorem runLines_concat (host : Host σ) (m : Machine σ) (lines : List Text) (line : Text) :
    runLines host m (lines ++ [line]) =
      proceed (runLines host m lines) fun m => runLine host m line := by
  induction lines generalizing m with
  | nil => exact proceed_continue _
  | cons first rest ih =>
    rw [List.cons_append, runLines, runLines, proceed_proceed]
    congr 1
    funext n
    exact ih n

theorem intercalate_concat {lines : List Text} (h : lines ≠ []) (separator line : Text) :
    separator.intercalate (lines ++ [line]) = separator.intercalate lines ++ separator ++ line := by
  induction lines with
  | nil => exact absurd rfl h
  | cons first rest ih =>
    cases rest with
    | nil => simp
    | cons second rest =>
      have hne : second :: rest ≠ [] := List.cons_ne_nil _ _
      rw [List.cons_append, List.intercalate_cons_of_ne_nil (by simp), ih hne,
        List.intercalate_cons_of_ne_nil hne]
      simp only [List.append_assoc]

theorem commentFree_intercalate {lines : List Text} (h : ∀ t ∈ lines, Chain.CommentFree t) :
    Chain.CommentFree (Operator.seq.joint.intercalate lines) := by
  induction lines with
  | nil => decide
  | cons first rest ih =>
    obtain ⟨hfirst, hrest⟩ := List.forall_mem_cons.1 h
    by_cases hne : rest = []
    · rwa [hne, List.intercalate_singleton]
    · rw [List.intercalate_cons_of_ne_nil hne]
      exact (hfirst.append (Chain.commentFree_joint .seq)).append (ih hrest)

theorem runLine_intercalate (host : Host σ) (m : Machine σ) {lines : List Text}
    (hcomment : ∀ t ∈ lines.dropLast, Chain.CommentFree t)
    (hjoin : ∀ t ∈ lines.tail, Chain.Joinable t) :
    runLine host m (Operator.seq.joint.intercalate lines) = runLines host m lines := by
  -- from the right: what is joined already has no comment, but it may begin with an operator
  induction lines using List.reverseRecOn with
  | nil => rfl
  | append_singleton lines line ih =>
    by_cases hne : lines = []
    · rw [hne, List.nil_append, List.intercalate_singleton, runLines]
      exact (proceed_continue _).symm
    · rw [List.dropLast_concat] at hcomment
      rw [List.tail_append_of_ne_nil hne] at hjoin
      have hline : Chain.Joinable line := hjoin line (by simp)
      have hearlier := ih (fun t ht => hcomment t (List.dropLast_subset _ ht))
        (fun t ht => hjoin t (List.mem_append_left _ ht))
      have hfree := commentFree_intercalate hcomment
      rw [intercalate_concat hne, runLine_append_seq host m hfree hline, hearlier, runLines_concat]

/-- A line made of two texts with a semicolon between them does what the first does and then, if
the session goes on, what the second does; the same holds of any number of texts. -/
theorem runLine_join (host : Host σ) (m : Machine σ) :
    (∀ a b : Text, Chain.stripComment a = a → Chain.Joinable b →
      runLine host m (a ++ " ; ".toList ++ b) =
        proceed (runLine host m a) fun m => runLine host m b) ∧
    ∀ lines : List Text, (∀ t ∈ lines.dropLast, Chain.stripComment t = t) →
      (∀ t ∈ lines.tail, Chain.Joinable t) →
      runLine host m (" ; ".toList.intercalate lines) = runLines host m lines := by
  refine ⟨fun a b ha hb => ?_, fun lines hcomment hjoin => ?_⟩
  · exact runLine_append_seq host m (Chain.commentFree_iff.2 ha) hb
  · have hfree : ∀ t ∈ lines.dropLast, Chain.CommentFree t :=
      fun t ht => Chain.commentFree_iff.2 (hcomment t ht)
    exact runLine_intercalate host m hfree hjoin

theorem runLine_join_idle :
    runLine Host.void idle ("setenv A 1 ||".toList ++ " ; ".toList ++ "exit 3 # done".toList) =
      proceed (runLine Host.void idle "setenv A 1 ||".toList) (fun m =>
        runLine Host.void m "exit 3 # done".toList) ∧
    runLine Host.void idle (" ; ".toList.intercalate
      ["env &&".toList, [], "exit 3".toList, "# done".toList]) =
      runLines Host.void idle ["env &&".toList, [], "exit 3".toList, "# done".toList] :=
  ⟨(runLine_join Host.void idle).1 _ _ (by decide) (by decide),
    (runLine_join Host.void idle).2 _ (by decide) (by decide)⟩

end Machine

end LineShell
