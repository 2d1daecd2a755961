import Jukebox.Clock
import Jukebox.Config.File
import Jukebox.Hub.Reports
import Jukebox.Json.Reader
import Jukebox.Json.Writer
import Jukebox.Number.FixedPoint
import Jukebox.Scheduler
import Jukebox.Timeline
import Jukebox.Proofs.Entries
import Jukebox.Proofs.Shuffle
import Jukebox.Proofs.Act
import Jukebox.Proofs.Session
import Jukebox.Proofs.Conduct
import Jukebox.Proofs.Obedience
import Jukebox.Proofs.Playing
import Jukebox.Proofs.Effects
import Jukebox.Proofs.Reporting
import Jukebox.Proofs.Invariants
import Jukebox.Proofs.Jobs
import Jukebox.Proofs.Runs
import Jukebox.Proofs.Position
import Jukebox.Proofs.PreloadDue
import Jukebox.Proofs.Handover
import Jukebox.Proofs.OnePreload
import Jukebox.Proofs.Instants
import Jukebox.Proofs.Ends
import Jukebox.Proofs.Ids
import Jukebox.Proofs.Adding
import Jukebox.Proofs.Waiting
import Jukebox.Proofs.Punctuality
import Jukebox.Proofs.Tasks
import Jukebox.Proofs.Waking
import Jukebox.Proofs.Turns
import Jukebox.Proofs.Sending
import Jukebox.Proofs.Debounce
import Jukebox.Proofs.Reading
import Jukebox.Proofs.Snapshots
import Jukebox.Proofs.Soundness
import Jukebox.Proofs.Bringing
import Jukebox.Proofs.Ownership
import Jukebox.Proofs.Buffered
import Jukebox.Proofs.Rereading
import Jukebox.Proofs.Coding
import Jukebox.Proofs.Restart
import Jukebox.Proofs.Holding
import Jukebox.Proofs.Buffering
import Jukebox.Proofs.Removal
import Jukebox.Proofs.Tracing
import Jukebox.Proofs.Skipping
import Jukebox.Proofs.Isolation
import Jukebox.Proofs.Recording
import Jukebox.Proofs.Keeping
import Jukebox.Proofs.Publishing
import Jukebox.Proofs.Departure
import Jukebox.Proofs.Labels
import Jukebox.Proofs.Configured
import Jukebox.Proofs.Clearing
import Jukebox.Proofs.Choosing
import Jukebox.Proofs.Saving
import Jukebox.Proofs.Recovery
import Jukebox.Proofs.Ahead
import Jukebox.Proofs.Telling
import Jukebox.Proofs.Repeating
import Jukebox.Proofs.WriteBack
import Jukebox.Proofs.Lookups
import Jukebox.Proofs.Splicing
import Jukebox.Proofs.Moving
import Jukebox.Proofs.Refilling
import Jukebox.Proofs.Spacing
import Jukebox.Proofs.Histories
import Jukebox.Proofs.Walking
import Jukebox.Proofs.Advancing
import Jukebox.Proofs.Unresolved
import Jukebox.Proofs.Placing
import Jukebox.Proofs.Reserving
import Jukebox.Proofs.Refusing
import Jukebox.Proofs.Transferring
import Jukebox.Proofs.Pointing
import Jukebox.Proofs.Unshuffling
import Jukebox.Proofs.Expanding
import Jukebox.Proofs.Sampling
import Jukebox.Proofs.Starting
import Jukebox.Proofs.Seeking
import Jukebox.Proofs.Streaming
import Jukebox.Proofs.Following
import Jukebox.Proofs.Naming
import Jukebox.Proofs.Decoding
import Jukebox.Proofs.Playable
