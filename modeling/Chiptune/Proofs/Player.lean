import Mathlib
import Chiptune.Proofs.Part
import Chiptune.Proofs.Sequencer.History
/-!
# Histories of a player

Parts come to a player by calls, each with a part at hand or with a file (`Call`). What a call brings does not
depend on the player (`Call.fetch`); what the player makes of it is one of three things (`Call.Does`). From
that one step (`Call.does_apply`) follows what a whole history of calls has made of a player: it holds the
parts of the calls that have succeeded (`map_parts_after`), which are the first ones brought (`parts_after`).

The sequencer is built by adding tracks and not looking whether they are taken. They all are, because a player
and its sequencer are full at the same number. Main statement `calls_add_in_order`.
-/
namespace Chiptune

namespace Player

inductive Call where
  | add (part : Part)
  /-- Settings are for bare entries. -/
  | addFile (folder : Folder) (path : String) (settings : Settings)

namespace Call

/-- What a call answers, and the player after it. -/
def apply (p : Player) : Call → Except PlayerFault Nat × Player
  | add part => p.answer (p.add part)
  | addFile folder path settings => p.answer (p.addFile folder path settings).value

/-- The part that a call brings, or what is wrong with its file: that it cannot be read comes first. -/
def fetch : Call → Except PlayerFault Part
  | add part => .ok part
  | addFile folder path settings =>
    match folder.read path with
    | .error cause => .error (.read path cause)
    | .ok data => (Part.load settings data).value.mapError (.load path)

/-- What a call comes to: the answer, and the player afterwards. -/
inductive Does (c : Call) (p : Player) : Except PlayerFault Nat × Player → Prop where
  /-- It brings no part. -/
  | refused {fault : PlayerFault} (h : c.fetch = .error fault) : Does c p (.error fault, p)
  /-- It brings a part to a player that has four. -/
  | full {part : Part} (h : c.fetch = .ok part) (hfull : p.parts.length = 4) :
    Does c p (.error (.tooMany 5), p)
  /-- It brings a part, and the player has it behind the others. -/
  | added {part : Part} {q : Player} (h : c.fetch = .ok part) (hroom : p.parts.length < 4)
    (hparts : q.parts = p.parts ++ [part]) (hconfig : q.config = p.config) (hbank : q.bank = p.bank) :
    Does c p (.ok p.parts.length, q)

end Call

/-- The calls with their answers, the first one first. -/
def history (p : Player) : List Call → List (Call × Except PlayerFault Nat)
  | [] => []
  | c :: calls => (c, (c.apply p).1) :: history (c.apply p).2 calls

def after (p : Player) (calls : List Call) : Player := calls.foldl (fun p c => (c.apply p).2) p

variable {p : Player} {part : Part} {c : Call} {after : Except PlayerFault Nat × Player}

/-! ## New players -/

/-- A player is made of every configuration that is accepted, and it has no parts yet. -/
theorem new_eq_ok {config : Config} : new config = .ok p ↔ p.config = config ∧ p.parts = [] := by
  constructor
  · intro h
    unfold new at h
    split at h
    · cases h
      exact ⟨rfl, rfl⟩
    · cases h
  · obtain ⟨config, bank, parts, haccepted, hfits⟩ := p
    rintro ⟨rfl, rfl⟩
    unfold new
    split
    · rename_i bank' haccepted'
      cases haccepted.symm.trans haccepted'
      rfl
    · rename_i fault hrefused
      cases haccepted.symm.trans hrefused

theorem new_eq_error {config : Config} {fault : PlayerFault} :
    new config = .error fault ↔ ∃ cause, fault = .config cause ∧ config.soundbank = .error cause := by
  unfold new
  split
  · rename_i bank haccepted
    simp [haccepted]
  · rename_i cause hrefused
    simp [hrefused, eq_comm]

/-! ## One call -/

theorem add_of_lt (h : p.parts.length < 4) (part : Part) :
    ∃ q, p.add part = .ok q ∧ q.parts = p.parts ++ [part] ∧ q.config = p.config ∧ q.bank = p.bank :=
  ⟨_, dif_pos h, rfl, rfl, rfl⟩

theorem add_of_full (h : p.parts.length = 4) (part : Part) : p.add part = .error (.tooMany 5) := by
  rw [add, dif_neg (by rw [h]; decide), h]

theorem addFile_value (p : Player) (folder : Folder) (path : String) (settings : Settings) :
    (p.addFile folder path settings).value = (Call.addFile folder path settings).fetch.bind p.add := by
  simp only [addFile, Call.fetch]
  cases folder.read path with
  | error cause => rfl
  | ok data =>
    dsimp only
    cases (Part.load settings data).value with
    | error cause => rfl
    | ok part => rfl

theorem Call.apply_eq (c : Call) (p : Player) : c.apply p = p.answer (c.fetch.bind p.add) := by
  cases c with
  | add part => rfl
  | addFile folder path settings => rw [apply, addFile_value]

/-- **What a call does.** -/
theorem Call.does_apply (c : Call) (p : Player) : c.Does p (c.apply p) := by
  cases hfetch : c.fetch with
  | error fault =>
    rw [apply_eq, hfetch]
    exact .refused hfetch
  | ok part =>
    rw [apply_eq, hfetch, Except.bind]
    by_cases hroom : p.parts.length < 4
    · obtain ⟨q, hq, hparts, hconfig, hbank⟩ := add_of_lt hroom part
      have hindex : q.parts.length - 1 = p.parts.length := by
        rw [hparts, List.length_append, List.length_singleton, Nat.add_sub_cancel]
      rw [hq, answer, hindex]
      exact .added hfetch hroom hparts hconfig hbank
    · -- More than four parts there cannot be, so the count that is told is five.
      have hfits : p.parts.length ≤ 4 := p.fits
      have hfull : p.parts.length = 4 := by omega
      rw [add_of_full hfull]
      exact .full hfetch hfull

namespace Call.Does

theorem eq_of_refused {fault : PlayerFault} (h : c.Does p after) (hfetch : c.fetch = .error fault) :
    after = (.error fault, p) := by
  cases h with
  | refused h =>
    cases hfetch.symm.trans h
    rfl
  | full h => cases hfetch.symm.trans h
  | added h => cases hfetch.symm.trans h

theorem eq_of_full (h : c.Does p after) (hfetch : c.fetch = .ok part) (hfull : p.parts.length = 4) :
    after = (.error (.tooMany 5), p) := by
  cases h with
  | refused h => cases hfetch.symm.trans h
  | full => rfl
  | added h hroom => omega

/-- The player has the part that the call brings if there is room for it. -/
theorem parts_eq (h : c.Does p after) :
    after.2.parts = (p.parts ++ c.fetch.toOption.toList).take maxParts := by
  cases h with
  | refused h =>
    rw [h]
    show p.parts = (p.parts ++ []).take maxParts
    rw [List.append_nil, List.take_of_length_le p.fits]
  | full h hfull => exact (List.take_left' hfull).symm
  | @added part q h hroom hparts =>
    have hfits : (p.parts ++ [part]).length ≤ maxParts := hparts ▸ q.fits
    rw [h, hparts]
    exact (List.take_of_length_le hfits).symm

/-- The player has the part that the call brings if the call has succeeded. -/
theorem map_parts_eq (h : c.Does p after) :
    after.2.parts.map .ok = p.parts.map .ok ++ if after.1.isOk then [c.fetch] else [] := by
  cases h with
  | refused h => exact (List.append_nil _).symm
  | full h hfull => exact (List.append_nil _).symm
  | added h hroom hparts =>
    rw [h, hparts, List.map_append]
    rfl

theorem config_eq (h : c.Does p after) : after.2.config = p.config ∧ after.2.bank = p.bank := by
  cases h with
  | refused h => exact ⟨rfl, rfl⟩
  | full h hfull => exact ⟨rfl, rfl⟩
  | added h hroom hparts hconfig hbank => exact ⟨hconfig, hbank⟩

end Call.Does

/-! ## Calls one after the other -/

theorem after_cons (p : Player) (c : Call) (calls : List Call) :
    p.after (c :: calls) = (c.apply p).2.after calls := rfl

theorem take_append_take {α : Type} (n : Nat) (xs ys : List α) :
    (xs.take n ++ ys).take n = (xs ++ ys).take n := by
  have hleft : n - min n xs.length = n - xs.length := by omega
  rw [List.take_append, List.take_append, List.take_take, Nat.min_self, List.length_take, hleft]

/-- **A player holds the first parts that are brought**, as many as it has room for. -/
theorem parts_after (p : Player) (calls : List Call) :
    (p.after calls).parts = (p.parts ++ calls.filterMap (·.fetch.toOption)).take maxParts := by
  induction calls generalizing p with
  | nil =>
    rw [List.filterMap_nil, List.append_nil, List.take_of_length_le p.fits]
    rfl
  | cons c calls ih =>
    have hbrought : (c :: calls).filterMap (·.fetch.toOption) =
        c.fetch.toOption.toList ++ calls.filterMap (·.fetch.toOption) := by
      rw [List.filterMap_cons]
      cases c.fetch.toOption <;> rfl
    rw [after_cons, ih, (c.does_apply p).parts_eq, take_append_take, hbrought, List.append_assoc]

/-- **A player holds the parts of the calls that have succeeded**, in their order. -/
theorem map_parts_after (p : Player) (calls : List Call) :
    (p.after calls).parts.map .ok =
      p.parts.map .ok ++ ((p.history calls).filter (·.2.isOk)).map (·.1.fetch) := by
  induction calls generalizing p with
  | nil => exact (List.append_nil _).symm
  | cons c calls ih =>
    rw [after_cons, ih, (c.does_apply p).map_parts_eq, history, List.filter_cons, List.append_assoc]
    -- The call is in the filtered history if it has succeeded.
    cases (c.apply p).1.isOk <;> rfl

theorem config_after (p : Player) (calls : List Call) :
    (p.after calls).config = p.config ∧ (p.after calls).bank = p.bank := by
  induction calls generalizing p with
  | nil => exact ⟨rfl, rfl⟩
  | cons c calls ih =>
    obtain ⟨hconfig, hbank⟩ := (c.does_apply p).config_eq
    obtain ⟨hrest, hrest'⟩ := ih (c.apply p).2
    exact ⟨hrest.trans hconfig, hrest'.trans hbank⟩

/-! ## The sequencer -/

/-- A track at the start of a part. -/
structure Fresh (part : Part) (t : Track) : Prop where
  data_eq : t.data = part.data
  count_eq : t.count = part.count
  settings_eq : t.settings = part.settings
  next_eq : t.next = 0
  wait_eq : t.wait = 0
  /-- The track is a new one. -/
  new_eq : part.data.size < word64Limit →
    (Track.new part.data part.count).map (·.withSettings part.settings) = .ok t

theorem fresh_track (part : Part) : Fresh part part.track :=
  ⟨rfl, rfl, rfl, rfl, rfl, part.map_new_eq_track⟩

/-- **Calls add their parts in order, and none of them is lost.** After any calls a new player holds the parts
of those that have succeeded, four at most. Any call then does what is said of it: it is refused for its file,
then for the room, and with the player as it was, or it adds its part and answers how many there were before.
The configuration and the sound bank stay. The sequencer takes every part that is added to it, so that its
tracks are the parts in order, each at its start. -/
theorem calls_add_in_order {config : Config} {p₀ : Player} (h : new config = .ok p₀) (calls : List Call) :
    let p := p₀.after calls
    p.parts.map .ok = ((p₀.history calls).filter (·.2.isOk)).map (·.1.fetch) ∧
    p.parts = (calls.filterMap (·.fetch.toOption)).take 4 ∧
    p.parts.length ≤ 4 ∧
    p.config = config ∧ p.bank = p₀.bank ∧
    (∀ c : Call, c.Does p (c.apply p)) ∧
    Sequencer.operate (.new p.bank, Silence.mk) (p.parts.map fun part => .add part.track) =
      (p.sequencer, Silence.mk) ∧
    p.sequencer.tracks.length = p.parts.length ∧
    ∀ (k : Nat) (part : Part), p.parts[k]? = some part →
      ∃ t, p.sequencer.tracks[k]? = some t ∧ Fresh part t := by
  intro p
  obtain ⟨hconfig, hparts⟩ := new_eq_ok.1 h
  obtain ⟨hkept, hbank⟩ := p₀.config_after calls
  refine ⟨?_, ?_, p.fits, hkept.trans hconfig, hbank, fun c => c.does_apply p, Sequencer.operate_parts p _,
    List.length_map .., ?_⟩
  · have hsuccessful := p₀.map_parts_after calls
    rwa [hparts, List.map_nil, List.nil_append] at hsuccessful
  · have hbrought := p₀.parts_after calls
    rwa [hparts, List.nil_append] at hbrought
  · intro k part hpart
    refine ⟨part.track, ?_, fresh_track part⟩
    rw [sequencer, List.getElem?_map, hpart]
    rfl

/-- A file that is not there, one with a cut entry and four parts. Then the cut entry is still what is told of
its file, and a fifth part is one too many. -/
theorem calls_add_in_order_full :
    let folder : Folder :=
      { files := [(⟨.above 0, ["a"]⟩, #[33, 1, 0]), (⟨.above 0, ["b"]⟩, #[33, 1])] }
    let lead : Part := ⟨⟨2, 15, 42⟩, #[33, 1, 0], by decide, by decide⟩
    let bass : Part := ⟨{}, #[12, 2, 0, 0xFE, 0, 0], by decide, by decide⟩
    let cut : Call := .addFile folder "b" {}
    let calls : List Call :=
      [.addFile {} "a" {}, cut, .addFile folder "a" ⟨2, 15, 42⟩, .add bass, .add bass, .add bass]
    ∃ p₀, new {} = .ok p₀ ∧
      let p := p₀.after calls
      p.parts = [lead, bass, bass, bass] ∧
      cut.apply p = (.error (.load "b" (.misaligned 2)), p) ∧
      (Call.add lead).apply p = (.error (.tooMany 5), p) ∧
      ∃ t, p.sequencer.tracks[0]? = some t ∧ Fresh lead t := by
  intro folder lead bass cut calls
  have hnew : new {} = .ok ⟨{}, .reference, [], rfl, by decide⟩ := rfl
  obtain ⟨-, hbrought, -, -, -, hdoes, -, -, htracks⟩ := calls_add_in_order hnew calls
  have hnone : (Call.addFile {} "a" {}).fetch = .error (.read "a" .notFound) := by cbv
  have hcut : cut.fetch = .error (.load "b" (.misaligned 2)) := by cbv
  have hlead : (Call.addFile folder "a" ⟨2, 15, 42⟩).fetch = .ok lead := by cbv
  have hbass : (Call.add bass).fetch = .ok bass := rfl
  have hparts : (after ⟨{}, .reference, [], rfl, by decide⟩ calls).parts = [lead, bass, bass, bass] := by
    rw [hbrought]
    simp only [calls, List.filterMap_cons, hnone, hcut, hlead, hbass, Except.toOption]
    rfl
  refine ⟨_, hnew, hparts, (hdoes cut).eq_of_refused hcut, ?_, htracks 0 lead (by rw [hparts]; rfl)⟩
  exact (hdoes (.add lead)).eq_of_full rfl (by rw [hparts]; rfl)

end Player

end Chiptune
