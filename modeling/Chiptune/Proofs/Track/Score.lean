import Mathlib.Algebra.Ring.Nat
import Chiptune.Track
import Chiptune.Proofs.Entry
/-!
# Scores

The score of a track is the list of entries it is to play. Playback never gets past the first end mark, so
only the first `loopSize` entries are heard; entry `i` is due `start i` ticks into a loop and holds the
track for `ticks` ticks, the tick that decodes it among them.

The two facts that the cursor needs are `loopSize_eq_of_endMark` and `loopSize_eq_of_last`: inside the loop
an end mark is the last entry, and a last entry that is no end mark is the last one of the whole score.
-/
namespace Chiptune

/-- The ticks that an entry holds its track: the one that decodes it and the wait after it. -/
def Entry.ticks (e : Entry) : Nat := e.duration.toNat + 1

/-- The entries of a track in the order they are stored. -/
abbrev Score := List Entry

namespace Score

/-- The entry sends the track back to its start. -/
def isEnd (e : Entry) : Bool := e.note = Entry.endMark

/-- The number of entries that playback reaches: all up to and with the first end mark. -/
def loopSize (s : Score) : Nat :=
  match s.findIdx? isEnd with
  | some i => i + 1
  | none => s.length

/-- The ticks before entry `i` of a loop. -/
def start (s : Score) (i : Nat) : Nat := ((s.take i).map Entry.ticks).sum

/-- The ticks of a loop. -/
def period (s : Score) : Nat := s.start s.loopSize

variable {s : Score} {i j : Nat} {e : Entry}

/-! ## The loop -/

theorem loopSize_le_length (s : Score) : s.loopSize ≤ s.length := by
  unfold loopSize
  split
  · rename_i i h
    exact (List.findIdx?_eq_some_iff_getElem.1 h).1
  · exact Nat.le_refl _

theorem loopSize_pos (h : 0 < s.length) : 0 < s.loopSize := by
  unfold loopSize
  split
  · exact Nat.succ_pos _
  · exact h

/-- Inside the loop only the last entry can be an end mark. -/
theorem loopSize_eq_of_endMark (hi : i < s.loopSize) (he : s[i]? = some e) (hend : e.note = Entry.endMark) :
    s.loopSize = i + 1 := by
  have hp : isEnd e = true := by simp [isEnd, hend]
  obtain ⟨hlen, rfl⟩ := List.getElem?_eq_some_iff.1 he
  unfold loopSize at hi ⊢
  split at hi
  · rename_i k hk
    obtain ⟨_, _, hbefore⟩ := List.findIdx?_eq_some_iff_getElem.1 hk
    by_cases hlt : i < k
    · exact absurd hp (by simpa using hbefore i hlt)
    · omega
  · rename_i hnone
    exact absurd hp (by simpa using List.findIdx?_eq_none_iff.1 hnone _ (List.getElem_mem hlen))

/-- The loop does not go past an end mark, wherever in the score that is. -/
theorem loopSize_le_of_endMark (he : s[i]? = some e) (hend : e.note = Entry.endMark) : s.loopSize ≤ i + 1 := by
  by_cases hi : i < s.loopSize
  · exact Nat.le_of_eq (loopSize_eq_of_endMark hi he hend)
  · omega

/-- A loop whose last entry is no end mark is the whole score. -/
theorem loopSize_eq_of_last (hi : i + 1 = s.loopSize) (he : s[i]? = some e) (hend : e.note ≠ Entry.endMark) :
    s.loopSize = s.length := by
  obtain ⟨hlen, rfl⟩ := List.getElem?_eq_some_iff.1 he
  unfold loopSize at hi ⊢
  split at hi
  · rename_i k hk
    obtain ⟨_, hp, _⟩ := List.findIdx?_eq_some_iff_getElem.1 hk
    obtain rfl : i = k := by omega
    exact absurd (by simpa [isEnd] using hp) hend
  · rfl

/-! ## Starts -/

@[simp] theorem start_zero (s : Score) : s.start 0 = 0 := by simp [start]

theorem start_succ (he : s[i]? = some e) : s.start (i + 1) = s.start i + e.ticks := by
  simp [start, List.take_add_one, he]

theorem start_le_start (h : i ≤ j) : s.start i ≤ s.start j := by
  obtain ⟨k, rfl⟩ := Nat.exists_eq_add_of_le h
  rw [start, start, List.take_add, List.map_append, List.sum_append]
  exact Nat.le_add_right _ _

theorem start_lt_start (h : i < j) (hi : i < s.length) : s.start i < s.start j := by
  have hstep := start_succ (List.getElem?_eq_getElem hi)
  have hle : s.start (i + 1) ≤ s.start j := start_le_start h
  simp only [Entry.ticks] at hstep
  omega

theorem start_lt_period (h : i < s.loopSize) : s.start i < s.period :=
  start_lt_start h (Nat.lt_of_lt_of_le h s.loopSize_le_length)

theorem start_succ_le_period (h : i < s.loopSize) : s.start (i + 1) ≤ s.period := start_le_start h

end Score

/-! ## The score of a track -/

namespace Track

/-- The entries to be played. -/
def score (t : Track) : Score := (Entry.all t.data).toList.take t.count

theorem length_score (t : Track) : t.score.length = t.count := by
  have hfits := t.fits
  simp only [score, List.length_take, Array.length_toList, Entry.size_all, Entry.size] at *
  omega

theorem score_congr {t u : Track} (hdata : t.data = u.data) (hcount : t.count = u.count) :
    t.score = u.score := by
  simp only [score, hdata, hcount]

/-- The cursor is on an entry of the score. -/
theorem getElem?_score_next (t : Track) : t.score[t.next]? = some t.entry := by
  rw [score, List.getElem?_take_of_lt t.next_lt, Entry.getElem?_all, dif_pos t.start_le]
  rfl

/-- The entries of the score are those that reading by position finds. -/
theorem getElem?_score (t : Track) {i : Nat} (hi : i < t.count) (haddr : t.count * Entry.size < word64Limit) :
    t.score[i]? = Entry.read t.data i := by
  have hfits := t.fits
  have hend : i * Entry.size + Entry.size ≤ t.count * Entry.size := by
    simp only [Entry.size]
    omega
  rw [score, List.getElem?_take_of_lt hi, Entry.getElem?_all, dif_pos (Nat.le_trans hend hfits),
    Entry.read_eq_some (Nat.le_trans hend hfits) (Nat.lt_of_le_of_lt hend haddr)]

theorem loopSize_pos (t : Track) : 0 < t.score.loopSize :=
  Score.loopSize_pos (by rw [t.length_score]; exact Nat.zero_lt_of_lt t.next_lt)

theorem loopSize_le_count (t : Track) : t.score.loopSize ≤ t.count :=
  t.length_score ▸ t.score.loopSize_le_length

/-- **Inside the loop the cursor goes round the loop**, whether an end mark or the last entry turns it
back. -/
theorem following_entry (t : Track) (h : t.next < t.score.loopSize) :
    t.following t.entry = (t.next + 1) % t.score.loopSize := by
  have hget := t.getElem?_score_next
  have hle := t.loopSize_le_count
  unfold following
  by_cases hend : t.entry.note = Entry.endMark
  · rw [if_pos hend, Score.loopSize_eq_of_endMark h hget hend, Nat.mod_self]
  · rw [if_neg hend]
    by_cases hlast : t.next + 1 = t.score.loopSize
    · rw [Score.loopSize_eq_of_last hlast hget hend, length_score]
    · rw [Nat.mod_eq_of_lt (by omega), Nat.mod_eq_of_lt (by omega)]

end Track

end Chiptune
