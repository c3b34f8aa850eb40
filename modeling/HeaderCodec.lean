import HeaderCodec.Peer
import HeaderCodec.Proofs.Deflate.WholeStreams
import HeaderCodec.Proofs.Session
import HeaderCodec.Proofs.Deflate.Bookkeeping
import HeaderCodec.Proofs.Conservation
import HeaderCodec.Proofs.AnyStream
import HeaderCodec.Proofs.PeerView
import HeaderCodec.Proofs.Losses
import HeaderCodec.Proofs.Fields
import HeaderCodec.Proofs.Budget
import HeaderCodec.Proofs.Reach
import HeaderCodec.Proofs.Restraint
import HeaderCodec.Proofs.Poisoning
import HeaderCodec.Proofs.Resending
import HeaderCodec.Proofs.Origins
import HeaderCodec.Proofs.Endings
import HeaderCodec.Proofs.Walking
import HeaderCodec.Proofs.Gathering
import HeaderCodec.Proofs.Lookup
import HeaderCodec.Proofs.Histories
import HeaderCodec.Proofs.Spelling
import HeaderCodec.Proofs.Joining
import HeaderCodec.Proofs.Writes
import HeaderCodec.Proofs.Deflate.Rounds
import HeaderCodec.Proofs.Termination
