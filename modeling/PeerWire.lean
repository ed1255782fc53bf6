import PeerWire.Main
import PeerWire.Proofs.Admission
import PeerWire.Proofs.Announcements
import PeerWire.Proofs.Assembling
import PeerWire.Proofs.Availability
import PeerWire.Proofs.Buffering
import PeerWire.Proofs.Cancellation
import PeerWire.Proofs.Canonical
import PeerWire.Proofs.Completeness
import PeerWire.Proofs.Coverage
import PeerWire.Proofs.Discipline
import PeerWire.Proofs.Endings
import PeerWire.Proofs.FrameLimit
import PeerWire.Proofs.FrameTiming
import PeerWire.Proofs.Fullness
import PeerWire.Proofs.Greeting
import PeerWire.Proofs.Handshaking
import PeerWire.Proofs.Inertness
import PeerWire.Proofs.Joining
import PeerWire.Proofs.Leave
import PeerWire.Proofs.Observers
import PeerWire.Proofs.Reports
import PeerWire.Proofs.RoundTrip
import PeerWire.Proofs.Safety
