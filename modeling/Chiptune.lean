import Chiptune.Main
import Chiptune.Proofs.Entry
import Chiptune.Proofs.Track.Score
import Chiptune.Proofs.Track.Run
import Chiptune.Proofs.Track.Schedule
import Chiptune.Proofs.Part
import Chiptune.Proofs.Track.Checked
import Chiptune.Proofs.Playback
import Chiptune.Proofs.Config
import Chiptune.Proofs.Listing
import Chiptune.Proofs.Live
import Chiptune.Proofs.Sequencer.History
import Chiptune.Proofs.Track.Heard
import Chiptune.Proofs.Track.Retuning
import Chiptune.Proofs.Player
import Chiptune.Proofs.Config.Verdict
import Chiptune.Proofs.Sequencer.Reset
import Chiptune.Proofs.Folder
import Chiptune.Proofs.Command.Failure
import Chiptune.Proofs.Tone
import Chiptune.Proofs.Track.Calls
import Chiptune.Proofs.Tuning.Order
import Chiptune.Proofs.Sequencer.Routes
import Chiptune.Proofs.Recorder
import Chiptune.Proofs.Text
import Chiptune.Proofs.Text.Duration
import Chiptune.Proofs.Trace
import Chiptune.Proofs.Listing.Reading
import Chiptune.Proofs.Trace.Room
import Chiptune.Proofs.Trace.Columns
import Chiptune.Proofs.Log
import Chiptune.Proofs.Number.Rounding
import Chiptune.Proofs.Number.Binary32
import Chiptune.Proofs.Config.Tempered
