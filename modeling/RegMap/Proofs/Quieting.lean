import RegMap.CommandLine.Arguments

/-!
# Arguments with the option for a quiet run

The option `-q`, or `--quiet`, may stand wherever an option is read.  It changes nothing of what
the other arguments say.

* `Arguments.Hushes` relates a list of arguments to one that has the option besides.
* `Arguments.Follows` compares a step of reading with the same step of a quiet run.  Each step
  follows, and so does the reading of a whole list (`Arguments.readFrom_hush`).
* `Arguments.read_of_hushes`: what is read is the same run, but quiet.
-/

namespace RegMap.Arguments

/-- A list of arguments, and the same with the option for a quiet run besides: as an argument of
its own, where those before it can be read by themselves and are not ended by `--`, or in front
of short options. -/
inductive Hushes : List String → List String → Prop where
  | inserted {front back : List String} {progress : Progress} {flag : String}
      (hfront : readFrom .nothing {} front = .ok progress) (hdashes : "--" ∉ front)
      (hflag : flag = "-q" ∨ flag = "--quiet") : Hushes (front ++ back) (front ++ flag :: back)
  | joined {front back : List String} {progress : Progress} {first : Char} {text : List Char}
      (hfront : readFrom .nothing {} front = .ok progress) (hdashes : "--" ∉ front)
      (hfirst : first ≠ '-') :
      Hushes (front ++ String.ofList ('-' :: first :: text) :: back)
        (front ++ String.ofList ('-' :: 'q' :: first :: text) :: back)

/-! ## Single steps -/

namespace Progress

/-- The same arguments so far, of a quiet run. -/
def hush (progress : Progress) : Progress :=
  { progress with quiet := true }

theorem setQuiet_eq_ok_iff {progress next : Progress} :
    progress.setQuiet = .ok next ↔ progress.quiet = false ∧ next = progress.hush := by
  unfold setQuiet hush
  cases progress.quiet with
  | false => simp [eq_comm]
  | true => simp

theorem setOutDirectory_hush (progress : Progress) (value : String) :
    progress.hush.setOutDirectory value = (progress.setOutDirectory value).map hush := by
  unfold setOutDirectory
  show ite (progress.outDirectory.isSome = true) _ _ = _
  split
  · rfl
  · split <;> rfl

theorem quiet_of_setOutDirectory {progress next : Progress} {value : String}
    (h : progress.setOutDirectory value = .ok next) : next.quiet = progress.quiet := by
  unfold setOutDirectory at h
  split at h
  · cases h
  · split at h
    · cases h
    · cases h
      rfl

theorem setConfig_hush (progress : Progress) (value : String) :
    progress.hush.setConfig value = (progress.setConfig value).map hush := by
  unfold setConfig
  show ite (progress.config.isSome = true) _ _ = _
  split
  · rfl
  · split <;> rfl

theorem quiet_of_setConfig {progress next : Progress} {value : String}
    (h : progress.setConfig value = .ok next) : next.quiet = progress.quiet := by
  unfold setConfig at h
  split at h
  · cases h
  · split at h
    · cases h
    · cases h
      rfl

end Progress

/-- A step that leaves a loud run began with one, and goes the same way for a quiet run. -/
def Follows (progress : Progress) (loud silent : Except Exit (Progress × Pending)) : Prop :=
  ∀ next pending, loud = .ok (next, pending) → next.quiet = false →
    progress.quiet = false ∧ silent = .ok (next.hush, pending)

theorem follows_ok (progress : Progress) (pending : Pending) :
    Follows progress (.ok (progress, pending)) (.ok (progress.hush, pending)) := by
  intro next left h hquiet
  cases h
  exact ⟨hquiet, rfl⟩

theorem follows_error (progress : Progress) (exit : Exit) (silent) :
    Follows progress (.error exit) silent := by
  intro next left h
  cases h

theorem follows_setOutDirectory (progress : Progress) (value : String) :
    Follows progress (do return (← progress.setOutDirectory value, .nothing))
      (do return (← progress.hush.setOutDirectory value, .nothing)) := by
  rw [Progress.setOutDirectory_hush]
  cases hset : progress.setOutDirectory value with
  | error exit => exact follows_error progress exit _
  | ok found =>
    intro next left h hquiet
    cases h
    exact ⟨(Progress.quiet_of_setOutDirectory hset).symm.trans hquiet, rfl⟩

/-- What asks for a quiet run is not followed by a loud one. -/
theorem follows_of_setQuiet {progress hushed : Progress} (h : progress.setQuiet = .ok hushed)
    {loud silent : Except Exit (Progress × Pending)} (hrest : Follows hushed loud silent)
    (other : Except Exit (Progress × Pending)) : Follows progress loud other := by
  intro next pending hloud hquiet
  have hnot := (hrest next pending hloud hquiet).1
  rw [(Progress.setQuiet_eq_ok_iff.1 h).2] at hnot
  cases hnot

theorem follows_long (progress : Progress) (name : List Char) (value : Option String) :
    Follows progress (long progress name value) (long progress.hush name value) := by
  unfold long
  split
  · exact follows_ok progress _
  · exact follows_setOutDirectory progress _
  · cases hset : progress.setQuiet with
    | error exit => exact follows_error progress exit _
    | ok found => exact follows_of_setQuiet hset (follows_ok found .nothing) _
  all_goals exact follows_error progress _ _

theorem follows_short (progress : Progress) (text : List Char) :
    Follows progress (short progress text) (short progress.hush text) := by
  fun_induction short progress text with
  | case1 progress => exact follows_ok progress _
  | case2 progress => exact follows_ok progress _
  | case3 progress value => exact follows_setOutDirectory progress _
  | case4 progress value hne hequals =>
    rw [short]
    · exact follows_setOutDirectory progress _
    · exact hne
    · exact hequals
  | case5 progress rest found hset ih => exact follows_of_setQuiet hset ih _
  | _ => exact follows_error _ _ _

theorem follows_option (progress : Progress) (text : List Char) :
    Follows progress (option progress text) (option progress.hush text) := by
  unfold option
  split
  · dsimp only
    split
    · exact follows_long progress _ _
    · exact follows_long progress _ _
  · exact follows_short progress _

/-! ## Lists of arguments -/

theorem positional_hush (progress : Progress) (arguments : List String) :
    positional progress.hush arguments = (positional progress arguments).map .hush := by
  unfold positional
  induction arguments generalizing progress with
  | nil => rfl
  | cons argument rest ih =>
    rw [List.foldlM_cons, List.foldlM_cons, Progress.setConfig_hush]
    cases progress.setConfig argument with
    | error exit => rfl
    | ok next => exact ih next

theorem quiet_of_positional {progress next : Progress} {arguments : List String}
    (h : positional progress arguments = .ok next) : next.quiet = progress.quiet := by
  unfold positional at h
  induction arguments generalizing progress with
  | nil =>
    cases h
    rfl
  | cons argument rest ih =>
    rw [List.foldlM_cons] at h
    cases hset : progress.setConfig argument with
    | error exit =>
      rw [hset] at h
      cases h
    | ok found =>
      rw [hset] at h
      exact (ih h).trans (Progress.quiet_of_setConfig hset)

theorem Pending.eq_nothing {pending : Pending} (h : pending ≠ .outDirectory) :
    pending = .nothing := by
  cases pending with
  | nothing => rfl
  | outDirectory => exact absurd rfl h

section

variable {progress next : Progress} {argument : String} (rest : List String)

theorem readFrom_value (hvalue : isOption argument.toList = false)
    (h : progress.setOutDirectory argument = .ok next) :
    readFrom .outDirectory progress (argument :: rest) = readFrom .nothing next rest := by
  rw [readFrom, if_pos rfl, hvalue, h]
  rfl

theorem readFrom_dashes (progress : Progress) :
    readFrom .nothing progress ("--" :: rest) = positional progress rest := by
  rw [readFrom, if_neg nofun, if_pos rfl]

theorem readFrom_option (progress : Progress) (hne : argument ≠ "--")
    (hoption : isOption argument.toList = true) :
    readFrom .nothing progress (argument :: rest) =
      match option progress argument.toList with
      | .ok (next, pending) => readFrom pending next rest
      | .error exit => .error exit := by
  have hpending : Pending.nothing ≠ .outDirectory := nofun
  cases htaken : option progress argument.toList with
  | ok => simp only [readFrom, hpending, hne, hoption, htaken, if_false, if_true]
  | error => simp only [readFrom, hpending, hne, hoption, htaken, if_false, if_true]

theorem readFrom_config (hne : argument ≠ "--") (hvalue : isOption argument.toList = false)
    (h : progress.setConfig argument = .ok next) :
    readFrom .nothing progress (argument :: rest) = readFrom .nothing next rest := by
  rw [readFrom, if_neg nofun, if_neg hne, hvalue, h]
  rfl

end

/-- A list that leaves a run loud began with a loud one, and is read the same way for a quiet
run. -/
theorem readFrom_hush {pending : Pending} {progress next : Progress} {arguments : List String}
    (h : readFrom pending progress arguments = .ok next) (hquiet : next.quiet = false) :
    progress.quiet = false ∧ readFrom pending progress.hush arguments = .ok next.hush := by
  fun_induction readFrom pending progress arguments with
  | case1 progress =>
    cases h
    exact ⟨hquiet, rfl⟩
  | case4 progress argument rest text hvalue found hset ih =>
    obtain ⟨hfound, hrest⟩ := ih h
    refine ⟨(Progress.quiet_of_setOutDirectory hset).symm.trans hfound, ?_⟩
    have hhush : progress.hush.setOutDirectory argument = .ok found.hush := by
      rw [Progress.setOutDirectory_hush, hset]
      rfl
    rw [readFrom_value rest (by simpa using hvalue) hhush, hrest]
  | case6 pending progress rest hpending =>
    rw [Pending.eq_nothing hpending, readFrom_dashes, positional_hush, h]
    exact ⟨(quiet_of_positional h).symm.trans hquiet, rfl⟩
  | case7 pending progress argument rest text hpending hne hoption found left hread ih =>
    obtain ⟨hfound, hrest⟩ := ih h
    obtain ⟨hloud, hhush⟩ := follows_option progress text found left hread hfound
    rw [Pending.eq_nothing hpending, readFrom_option rest _ hne hoption, hhush]
    exact ⟨hloud, hrest⟩
  | case9 pending progress argument rest text hpending hne hvalue found hset ih =>
    obtain ⟨hfound, hrest⟩ := ih h
    refine ⟨(Progress.quiet_of_setConfig hset).symm.trans hfound, ?_⟩
    have hhush : progress.hush.setConfig argument = .ok found.hush := by
      rw [Progress.setConfig_hush, hset]
      rfl
    rw [Pending.eq_nothing hpending, readFrom_config rest hne (by simpa using hvalue) hhush, hrest]
  | _ => cases h

/-- What was read goes on behind arguments that could be read by themselves. -/
theorem readFrom_append {pending : Pending} {progress next : Progress} {front : List String}
    (h : readFrom pending progress front = .ok next) (hdashes : "--" ∉ front)
    (back : List String) :
    readFrom pending progress (front ++ back) = readFrom .nothing next back := by
  fun_induction readFrom pending progress front with
  | case1 progress =>
    cases h
    rfl
  | case4 progress argument rest text hvalue found hset ih =>
    rw [List.mem_cons, not_or] at hdashes
    rw [List.cons_append, readFrom_value _ (by simpa using hvalue) hset, ih h hdashes.2]
  | case6 => exact absurd List.mem_cons_self hdashes
  | case7 pending progress argument rest text hpending hne hoption found left hread ih =>
    rw [List.mem_cons, not_or] at hdashes
    rw [List.cons_append, Pending.eq_nothing hpending, readFrom_option _ _ hne hoption, hread]
    exact ih h hdashes.2
  | case9 pending progress argument rest text hpending hne hvalue found hset ih =>
    rw [List.mem_cons, not_or] at hdashes
    rw [List.cons_append, Pending.eq_nothing hpending,
      readFrom_config _ hne (by simpa using hvalue) hset, ih h hdashes.2]
  | _ => cases h

/-! ## The option -/

theorem short_quiet {progress : Progress} (h : progress.quiet = false) (rest : List Char) :
    short progress ('q' :: rest) = short progress.hush rest := by
  rw [short, Progress.setQuiet_eq_ok_iff.2 ⟨h, rfl⟩]

theorem readFrom_short (progress : Progress) {c : Char} (hc : c ≠ '-') (text : List Char)
    (back : List String) :
    readFrom .nothing progress (String.ofList ('-' :: c :: text) :: back) =
      match short progress (c :: text) with
      | .ok (next, pending) => readFrom pending next back
      | .error exit => .error exit := by
  have hne : String.ofList ('-' :: c :: text) ≠ "--" := by
    intro heq
    have hlist := congrArg String.toList heq
    simp [hc] at hlist
  have hoption : isOption (String.ofList ('-' :: c :: text)).toList = true := by simp [isOption]
  have hshort : option progress ('-' :: c :: text) = short progress (c :: text) := by
    rw [option]
    · rfl
    · simpa using hc
  rw [readFrom_option back progress hne hoption, String.toList_ofList, hshort]

/-- With the option in front of them, short options are read for a quiet run. -/
theorem readFrom_joined {progress : Progress} (h : progress.quiet = false) {first : Char}
    (hfirst : first ≠ '-') (text : List Char) (back : List String) :
    readFrom .nothing progress (String.ofList ('-' :: 'q' :: first :: text) :: back) =
      readFrom .nothing progress.hush (String.ofList ('-' :: first :: text) :: back) := by
  rw [readFrom_short progress (by decide), readFrom_short progress.hush hfirst, short_quiet h]

/-- Behind the option, arguments are read for a quiet run. -/
theorem readFrom_flag {progress : Progress} (h : progress.quiet = false) {flag : String}
    (hflag : flag = "-q" ∨ flag = "--quiet") (back : List String) :
    readFrom .nothing progress (flag :: back) = readFrom .nothing progress.hush back := by
  cases hflag with
  | inl hshort =>
    subst hshort
    have hread := readFrom_short progress (c := 'q') (by decide) [] back
    rw [short_quiet h] at hread
    exact hread
  | inr hlong =>
    subst hlong
    have hread : option progress "--quiet".toList = .ok (progress.hush, .nothing) := by
      show (do return (← progress.setQuiet, Pending.nothing)) = _
      rw [Progress.setQuiet_eq_ok_iff.2 ⟨h, rfl⟩]
      rfl
    rw [readFrom_option back progress (by decide) (by decide), hread]

theorem readFrom_of_hushes {given others : List String} (h : Hushes given others)
    {next : Progress} (hread : readFrom .nothing {} given = .ok next)
    (hquiet : next.quiet = false) : readFrom .nothing {} others = .ok next.hush := by
  cases h with
  | inserted hfront hdashes hflag =>
    rw [readFrom_append hfront hdashes] at hread ⊢
    obtain ⟨hloud, hhush⟩ := readFrom_hush hread hquiet
    rw [readFrom_flag hloud hflag, hhush]
  | joined hfront hdashes hfirst =>
    rw [readFrom_append hfront hdashes] at hread ⊢
    obtain ⟨hloud, hhush⟩ := readFrom_hush hread hquiet
    rw [readFrom_joined hloud hfirst, hhush]

/-- A run that is asked for with the option is the same run, but quiet. -/
theorem read_of_hushes {given others : List String} (h : Hushes given others)
    {parsed : Arguments} (hread : read given = .ok parsed) (hquiet : parsed.quiet = false) :
    read others = .ok { parsed with quiet := true } := by
  unfold read at hread ⊢
  cases hgiven : readFrom .nothing {} given with
  | error exit =>
    rw [hgiven] at hread
    cases hread
  | ok next =>
    rw [hgiven] at hread
    cases hconfig : next.config with
    | none =>
      dsimp only [bind, Except.bind] at hread
      rw [hconfig] at hread
      cases hread
    | some config =>
      dsimp only [bind, Except.bind] at hread
      rw [hconfig] at hread
      cases hread
      have hhush : next.hush.config = some config := hconfig
      rw [readFrom_of_hushes h hgiven hquiet]
      dsimp only [bind, Except.bind]
      rw [hhush]
      rfl

end RegMap.Arguments
