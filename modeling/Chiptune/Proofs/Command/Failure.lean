import Chiptune.Proofs.Command
import Chiptune.Proofs.Config.Verdict
/-!
# Commands that fail

`Refuses` says why a command has no player: first its configuration, whatever the files are, then the first
file that brings no part or comes fifth. Loading finds just that (`player_eq_error`), and a command that is
refused ends before it prints or stores anything.

Main statement `failing_command_leaves_nothing`.
-/
namespace Chiptune

/-! ## The first element that fails -/

section
variable {ε σ α : Type} {f : σ → α → Except ε σ}

/-- A fold ends at the first element that fails. -/
theorem foldlM_eq_error {e : ε} {xs : List α} {s : σ} :
    xs.foldlM f s = .error e ↔
      ∃ before x after t, xs = before ++ x :: after ∧ before.foldlM f s = .ok t ∧ f t x = .error e := by
  constructor
  · intro h
    induction xs generalizing s with
    | nil => cases h
    | cons x xs ih =>
      rw [List.foldlM_cons] at h
      cases hx : f s x with
      | error e' =>
        rw [hx] at h
        exact ⟨[], x, xs, s, rfl, rfl, hx.trans h⟩
      | ok t =>
        rw [hx] at h
        obtain ⟨before, y, after, u, rfl, hbefore, hy⟩ := ih h
        refine ⟨x :: before, y, after, u, rfl, ?_, hy⟩
        rw [List.foldlM_cons, hx]
        exact hbefore
  · rintro ⟨before, x, after, t, rfl, hbefore, hx⟩
    rw [List.foldlM_append, hbefore]
    show (x :: after).foldlM f t = _
    rw [List.foldlM_cons, hx]
    rfl

end

/-- The value of two results is that of the second, with the faults of the first. -/
theorem Logged.value_andThen {ε α β : Type} (r : Logged (Except ε α)) (next : α → Logged (Except ε β)) :
    (r.andThen next).value = r.value >>= fun a => (next a).value := by
  unfold andThen
  cases r.value with
  | error e => rfl
  | ok a => rfl

namespace Player

variable {p q : Player} {folder : Folder} {settings : Settings} {files : List String} {path : String}
  {fault : PlayerFault}

/-! ## Files one after the other -/

theorem value_addFiles (p : Player) (folder : Folder) (settings : Settings) (files : List String) :
    (p.addFiles folder settings files).value =
      files.foldlM (fun p path => (p.addFile folder path settings).value) p := by
  induction files generalizing p with
  | nil => rfl
  | cons path files ih => simp only [addFiles, Logged.value_andThen, List.foldlM_cons, ih]

/-- A file brings a part. -/
def Brings (folder : Folder) (settings : Settings) (path : String) : Prop :=
  ∃ part, (Call.addFile folder path settings).fetch = .ok part

theorem addFile_eq_ok (h : (p.addFile folder path settings).value = .ok q) :
    Brings folder settings path ∧ q.parts.length = p.parts.length + 1 := by
  rw [addFile_value] at h
  cases hfetch : (Call.addFile folder path settings).fetch with
  | error fault =>
    rw [hfetch] at h
    cases h
  | ok part =>
    rw [hfetch, Except.bind, add] at h
    split at h
    · cases h
      exact ⟨⟨part, hfetch⟩, by simp⟩
    · cases h

/-- What is wrong with a file is told before a full player. -/
theorem addFile_eq_error :
    (p.addFile folder path settings).value = .error fault ↔
      (Call.addFile folder path settings).fetch = .error fault ∨
        p.parts.length = 4 ∧ Brings folder settings path ∧ fault = .tooMany 5 := by
  rw [addFile_value, Brings]
  cases (Call.addFile folder path settings).fetch with
  | error fault' => simp [Except.bind]
  | ok part =>
    have hfits : p.parts.length ≤ 4 := p.fits
    by_cases hroom : p.parts.length < 4
    · obtain ⟨q, hq, -⟩ := add_of_lt hroom part
      simp [Except.bind, hq]
      omega
    · have hfull : p.parts.length = 4 := by omega
      simp [Except.bind, add_of_full hfull, hfull, eq_comm]

theorem addFiles_eq_ok (h : files.foldlM (fun p path => (p.addFile folder path settings).value) p = .ok q) :
    (∀ path ∈ files, Brings folder settings path) ∧ q.parts.length = p.parts.length + files.length := by
  induction files generalizing p with
  | nil =>
    cases h
    exact ⟨nofun, rfl⟩
  | cons path files ih =>
    rw [List.foldlM_cons] at h
    cases hp : (p.addFile folder path settings).value with
    | error fault =>
      rw [hp] at h
      cases h
    | ok p' =>
      rw [hp] at h
      obtain ⟨hfile, hlength⟩ := addFile_eq_ok hp
      obtain ⟨hfiles, hlength'⟩ := ih h
      refine ⟨List.forall_mem_cons.2 ⟨hfile, hfiles⟩, ?_⟩
      rw [hlength', hlength, List.length_cons]
      omega

theorem exists_addFiles_eq_ok :
    (∃ q, files.foldlM (fun p path => (p.addFile folder path settings).value) p = .ok q) ↔
      (∀ path ∈ files, Brings folder settings path) ∧ p.parts.length + files.length ≤ 4 := by
  constructor
  · rintro ⟨q, hq⟩
    obtain ⟨hfiles, hlength⟩ := addFiles_eq_ok hq
    exact ⟨hfiles, hlength ▸ q.fits⟩
  · rintro ⟨hfiles, hroom⟩
    cases hresult : files.foldlM (fun p path => (p.addFile folder path settings).value) p with
    | ok q => exact ⟨q, rfl⟩
    | error fault =>
      -- The file that fails brings a part, so the player is full, with files still to come.
      obtain ⟨before, path, after, q, rfl, hbefore, hpath⟩ := foldlM_eq_error.1 hresult
      obtain ⟨-, hlength⟩ := addFiles_eq_ok hbefore
      rcases addFile_eq_error.1 hpath with hfetch | ⟨hfull, -⟩
      · obtain ⟨part, hpart⟩ := hfiles path (by simp)
        cases hfetch.symm.trans hpart
      · simp at hroom
        omega

end Player

namespace Command

variable {folder : Folder} {options : Options} {files : List String} {p : Player} {fault : PlayerFault}

/-! ## Players -/

/-- A sound bank can be made of the configuration. -/
def Configured (folder : Folder) (options : Options) : Prop :=
  ∃ c bank, config folder options = .ok c ∧ c.soundbank = .ok bank

/-- All that is needed for a player. -/
structure Loadable (folder : Folder) (options : Options) (files : List String) : Prop where
  configured : Configured folder options
  brings : ∀ path ∈ files, Player.Brings folder options.settings path
  length_le : files.length ≤ 4

/-- Why there is no player. -/
inductive Refuses (folder : Folder) (options : Options) (files : List String) : PlayerFault → Prop where
  /-- The configuration cannot be loaded. -/
  | unloadable {fault : PlayerFault} (h : config folder options = .error fault) : Refuses folder options files fault
  /-- There is something wrong with the configuration. -/
  | rejected {c : Config} {cause : ConfigFault} (hconfig : config folder options = .ok c)
      (h : c.Verdict (.error cause)) : Refuses folder options files (.config cause)
  /-- A file brings no part, the first one that does not, and at most the fifth. -/
  | file {before after : List String} {path : String} {fault : PlayerFault} (hconfig : Configured folder options)
      (hfiles : files = before ++ path :: after) (hroom : before.length ≤ 4)
      (hbefore : ∀ q ∈ before, Player.Brings folder options.settings q)
      (h : (Player.Call.addFile folder path options.settings).fetch = .error fault) :
      Refuses folder options files fault
  /-- Five files bring parts. -/
  | tooMany {before after : List String} {path : String} (hconfig : Configured folder options)
      (hfiles : files = before ++ path :: after) (hfull : before.length = 4)
      (hbefore : ∀ q ∈ before, Player.Brings folder options.settings q)
      (h : Player.Brings folder options.settings path) : Refuses folder options files (.tooMany 5)

/-- A player is made of the configuration, and the files come to it one after the other. -/
theorem player_eq (folder : Folder) (options : Options) (files : List String) :
    player folder options files =
      config folder options >>= fun c => Player.new c >>= fun p =>
        files.foldlM (fun p path => (p.addFile folder path options.settings).value) p := by
  simp only [player, loadPlayer, config, Logged.value_andThen, Player.value_addFiles]

theorem config_cases (folder : Folder) (options : Options) :
    (∃ fault, config folder options = .error fault) ∨
      (∃ c cause, config folder options = .ok c ∧ c.Verdict (.error cause)) ∨ Configured folder options := by
  cases hconfig : config folder options with
  | error fault => exact .inl ⟨fault, rfl⟩
  | ok c =>
    cases hbank : c.soundbank with
    | error cause => exact .inr (.inl ⟨c, cause, rfl, Config.soundbank_eq_iff.1 hbank⟩)
    | ok bank => exact .inr (.inr ⟨c, bank, hconfig, hbank⟩)

theorem player_of_unloadable (h : config folder options = .error fault) :
    player folder options files = .error fault := by
  rw [player_eq, h]
  rfl

theorem player_of_rejected {c : Config} {cause : ConfigFault} (hconfig : config folder options = .ok c)
    (h : c.Verdict (.error cause)) : player folder options files = .error (.config cause) := by
  have hnew : Player.new c = .error (.config cause) :=
    Player.new_eq_error.2 ⟨cause, rfl, Config.soundbank_eq_iff.2 h⟩
  rw [player_eq, hconfig]
  show (Player.new c >>= _) = _
  rw [hnew]
  rfl

/-- Where there is a sound bank, the files come to a player without parts. -/
theorem player_of_configured (h : Configured folder options) :
    ∃ p : Player, p.parts = [] ∧ ∀ files, player folder options files =
      files.foldlM (fun p path => (p.addFile folder path options.settings).value) p := by
  obtain ⟨c, bank, hconfig, hbank⟩ := h
  obtain ⟨p, hnew, hparts⟩ : ∃ p, Player.new c = .ok p ∧ p.parts = [] :=
    ⟨⟨c, bank, [], hbank, by decide⟩, Player.new_eq_ok.2 ⟨rfl, rfl⟩, rfl⟩
  refine ⟨p, hparts, fun files => ?_⟩
  rw [player_eq, hconfig]
  show (Player.new c >>= _) = _
  rw [hnew]
  rfl

theorem configured_of_player (h : player folder options files = .ok p) : Configured folder options := by
  rcases config_cases folder options with ⟨cause, hconfig⟩ | ⟨c, cause, hconfig, hverdict⟩ | hconfig
  · cases (player_of_unloadable hconfig).symm.trans h
  · cases (player_of_rejected hconfig hverdict).symm.trans h
  · exact hconfig

theorem player_eq_ok (h : player folder options files = .ok p) :
    (∀ path ∈ files, Player.Brings folder options.settings path) ∧ p.parts.length = files.length := by
  obtain ⟨p₀, hparts, hplayer⟩ := player_of_configured (configured_of_player h)
  rw [hplayer] at h
  obtain ⟨hbrings, hlength⟩ := Player.addFiles_eq_ok h
  rw [hparts, List.length_nil, Nat.zero_add] at hlength
  exact ⟨hbrings, hlength⟩

theorem exists_player_eq_ok : (∃ p, player folder options files = .ok p) ↔ Loadable folder options files := by
  constructor
  · rintro ⟨p, hp⟩
    obtain ⟨hbrings, hlength⟩ := player_eq_ok hp
    exact ⟨configured_of_player hp, hbrings, hlength ▸ p.fits⟩
  · rintro ⟨hconfig, hbrings, hroom⟩
    obtain ⟨p₀, hparts, hplayer⟩ := player_of_configured hconfig
    rw [hplayer, Player.exists_addFiles_eq_ok, hparts, List.length_nil, Nat.zero_add]
    exact ⟨hbrings, hroom⟩

/-- The file that is told comes to the player with the files before it. -/
theorem player_eq_error_of_configured (h : Configured folder options) :
    player folder options files = .error fault ↔
      ∃ before path after p, files = before ++ path :: after ∧ player folder options before = .ok p ∧
        (p.addFile folder path options.settings).value = .error fault := by
  obtain ⟨p₀, -, hplayer⟩ := player_of_configured h
  simp only [hplayer, foldlM_eq_error]

/-- **A player is not loaded for what is said of it.** -/
theorem player_eq_error : player folder options files = .error fault ↔ Refuses folder options files fault := by
  constructor
  · intro h
    rcases config_cases folder options with ⟨cause, hconfig⟩ | ⟨c, cause, hconfig, hverdict⟩ | hconfig
    · cases (player_of_unloadable hconfig).symm.trans h
      exact .unloadable hconfig
    · cases (player_of_rejected hconfig hverdict).symm.trans h
      exact .rejected hconfig hverdict
    · obtain ⟨before, path, after, p, hfiles, hbefore, hpath⟩ := (player_eq_error_of_configured hconfig).1 h
      obtain ⟨hbrings, hlength⟩ := player_eq_ok hbefore
      rcases Player.addFile_eq_error.1 hpath with hfetch | ⟨hfull, hfifth, rfl⟩
      · exact .file hconfig hfiles (hlength ▸ p.fits) hbrings hfetch
      · exact .tooMany hconfig hfiles (hlength ▸ hfull) hbrings hfifth
  · rintro (hconfig | ⟨hconfig, hverdict⟩ | ⟨hconfig, hfiles, hroom, hbefore, hfetch⟩ |
      ⟨hconfig, hfiles, hfull, hbefore, hpath⟩)
    · exact player_of_unloadable hconfig
    · exact player_of_rejected hconfig hverdict
    · obtain ⟨p, hp⟩ := exists_player_eq_ok.2 ⟨hconfig, hbefore, hroom⟩
      exact (player_eq_error_of_configured hconfig).2
        ⟨_, _, _, p, hfiles, hp, Player.addFile_eq_error.2 (.inl hfetch)⟩
    · obtain ⟨p, hp⟩ := exists_player_eq_ok.2 ⟨hconfig, hbefore, hfull.le⟩
      obtain ⟨-, hlength⟩ := player_eq_ok hp
      exact (player_eq_error_of_configured hconfig).2
        ⟨_, _, _, p, hfiles, hp, Player.addFile_eq_error.2 (.inr ⟨hlength.trans hfull, hpath, rfl⟩)⟩

/-! ## Failing commands -/

/-- What a command fails with. -/
inductive Fails (folder : Folder) (c : Command) : CommandFault → Prop where
  /-- It has no player. -/
  | player {fault : PlayerFault} (h : Refuses folder c.options c.files fault) : Fails folder c (.player fault)
  /-- It has one, and the file to be written cannot be created. -/
  | create {out : String} (hloadable : Loadable folder c.options c.files) (hout : c.out? = some out)
      (h : folder.canCreate out = false) : Fails folder c (.create out)

theorem run_of_fails {c : Command} {e : CommandFault} (h : Fails folder c e) (clock : Nat → Nat) :
    c.run folder clock = .error e ⟨folder, ""⟩ := by
  cases h with
  | player hrefused => exact run_of_work_error (work_of_error (player_eq_error.2 hrefused))
  | @create out hloadable hout hcreate =>
    obtain ⟨p, hp⟩ := exists_player_eq_ok.2 hloadable
    cases c with
    | dump file options => cases hout
    | trace files ticks out options =>
      cases hout
      exact run_of_work_error (work_of_not_canCreate hp hcreate)
    | play files ticks options => cases hout

/-- A command that has a player and can create its file is carried out. -/
theorem exists_run_eq_ok_of_loadable {c : Command} (h : Loadable folder c.options c.files)
    (hout : ∀ out, c.out? = some out → folder.canCreate out = true) (clock : Nat → Nat) :
    ∃ s, c.run folder clock = .ok () s := by
  obtain ⟨p, hp⟩ := exists_player_eq_ok.2 h
  cases c with
  | dump file options =>
    obtain ⟨-, hlength⟩ := player_eq_ok hp
    obtain ⟨part, hpart⟩ := List.length_eq_one_iff.1 hlength
    exact ⟨_, run_of_work_ok (work_dump hp hpart)⟩
  | trace files ticks out options =>
    cases out with
    | none => exact ⟨_, run_of_work_ok (work_trace hp)⟩
    | some out => exact ⟨_, run_of_work_ok (work_trace_out hp (hout out rfl))⟩
  | play files ticks options =>
    obtain ⟨_, hwork⟩ := work_play hp
    exact ⟨_, run_of_work_ok hwork⟩

theorem exists_refuses_iff :
    (∃ fault, Refuses folder options files fault) ↔ ¬ Loadable folder options files := by
  simp only [← player_eq_error, ← exists_player_eq_ok]
  cases player folder options files <;> simp

theorem exists_fails_or (folder : Folder) (c : Command) :
    (∃ e, Fails folder c e) ∨
      Loadable folder c.options c.files ∧ ∀ out, c.out? = some out → folder.canCreate out = true := by
  by_cases hloadable : Loadable folder c.options c.files
  · by_cases hout : ∀ out, c.out? = some out → folder.canCreate out = true
    · exact .inr ⟨hloadable, hout⟩
    · push Not at hout
      obtain ⟨out, hout, hcreate⟩ := hout
      exact .inl ⟨_, .create hloadable hout (Bool.eq_false_of_not_eq_true hcreate)⟩
  · obtain ⟨fault, hrefused⟩ := exists_refuses_iff.2 hloadable
    exact .inl ⟨_, .player hrefused⟩

theorem run_eq_error {c : Command} {e : CommandFault} {s : Session} {clock : Nat → Nat} :
    c.run folder clock = .error e s ↔ Fails folder c e ∧ s = ⟨folder, ""⟩ := by
  constructor
  · intro h
    rcases exists_fails_or folder c with ⟨e', he'⟩ | ⟨hloadable, hout⟩
    · cases (run_of_fails he' clock).symm.trans h
      exact ⟨he', rfl⟩
    · obtain ⟨s', hs'⟩ := exists_run_eq_ok_of_loadable hloadable hout clock
      cases hs'.symm.trans h
  · rintro ⟨h, rfl⟩
    exact run_of_fails h clock

theorem exists_run_eq_ok {c : Command} {clock : Nat → Nat} :
    (∃ s, c.run folder clock = .ok () s) ↔
      Loadable folder c.options c.files ∧ ∀ out, c.out? = some out → folder.canCreate out = true := by
  constructor
  · rintro ⟨s, hs⟩
    refine (exists_fails_or folder c).resolve_left ?_
    rintro ⟨e, he⟩
    cases (run_of_fails he clock).symm.trans hs
  · rintro ⟨hloadable, hout⟩
    exact exists_run_eq_ok_of_loadable hloadable hout clock

/-- **A command that fails leaves the session as it was.** With nothing printed and every file as it was, it
fails for the first thing that is wrong: its configuration, whatever its files are, then the first file in
order that cannot be read or loaded or comes fifth, then the file to be written. Otherwise, with a sound bank
and at most four files that all bring parts, it is carried out. -/
theorem failing_command_leaves_nothing (folder : Folder) (c : Command) (clock : Nat → Nat) :
    (∀ e s, c.run folder clock = .error e s ↔ Fails folder c e ∧ s = ⟨folder, ""⟩) ∧
    ((∃ fault, Refuses folder c.options c.files fault) ↔ ¬ Loadable folder c.options c.files) ∧
    ((∃ s, c.run folder clock = .ok () s) ↔
      Loadable folder c.options c.files ∧ ∀ out, c.out? = some out → folder.canCreate out = true) :=
  ⟨fun _ _ => run_eq_error, exists_refuses_iff, exists_run_eq_ok⟩

/-- Files that fail in other places: a cut one in the fifth place, of which its own fault is told, and a good
one there, which is too many. A configuration that is missing goes before all files. The trace would have gone
to one of its own files. -/
theorem failing_command_leaves_nothing_fifth_file :
    let folder : Folder :=
      { files := [(⟨.above 0, ["a"]⟩, #[33, 1, 0]), (⟨.above 0, ["b"]⟩, #[33, 1])] }
    run folder (.trace ["a", "a", "a", "a", "b", "c"] 9 (some "a") {}) =
        .error (.player (.load "b" (.misaligned 2))) ⟨folder, ""⟩ ∧
      run folder (.play ["a", "a", "a", "a", "a", "b"] (some 9) {}) = .error (.player (.tooMany 5)) ⟨folder, ""⟩ ∧
      run folder (.dump "b" { config := some "c" }) =
        .error (.player (.config (.read "c" .notFound))) ⟨folder, ""⟩ := by
  intro folder
  have hconfig : Configured folder {} := ⟨{}, .reference, rfl, rfl⟩
  have ha : Player.Brings folder {} "a" := ⟨⟨{}, #[33, 1, 0], by decide, by decide⟩, by cbv⟩
  have hb : (Player.Call.addFile folder "b" {}).fetch = .error (.load "b" (.misaligned 2)) := by cbv
  have hc : config folder { config := some "c" } = .error (.config (.read "c" .notFound)) := by cbv
  have hfour : ∀ q ∈ ["a", "a", "a", "a"], Player.Brings folder {} q := by simpa using ha
  have hcut : ["a", "a", "a", "a", "b", "c"] = ["a", "a", "a", "a"] ++ "b" :: ["c"] := rfl
  have hgood : ["a", "a", "a", "a", "a", "b"] = ["a", "a", "a", "a"] ++ "a" :: ["b"] := rfl
  refine ⟨((failing_command_leaves_nothing folder _ _).1 _ _).2 ⟨?_, rfl⟩,
    ((failing_command_leaves_nothing folder _ _).1 _ _).2 ⟨?_, rfl⟩,
    ((failing_command_leaves_nothing folder _ _).1 _ _).2 ⟨?_, rfl⟩⟩
  · exact .player (.file hconfig hcut (by decide) hfour hb)
  · exact .player (.tooMany hconfig hgood rfl hfour ha)
  · exact .player (.unloadable hc)

end Command

end Chiptune
