import BandedPage.Opcode.Name
import BandedPage.Proofs.Bits.Basic
import BandedPage.Proofs.Bits.Payload
import BandedPage.Proofs.Facsimile.Rows
import BandedPage.Proofs.Operand.ColoredBases
import BandedPage.Proofs.Operand.Offset
import BandedPage.Proofs.Operand.Sequence
import BandedPage.Proofs.Page.Fills
import BandedPage.Proofs.Path.Skipping
import BandedPage.Proofs.Replay.Paths
import BandedPage.Proofs.Replay.Truncation
import BandedPage.Proofs.Writer.Clipping
import BandedPage.Proofs.Writer.CommandOrder
import BandedPage.Proofs.Writer.Parallels
import BandedPage.Proofs.Writer.Paths
import BandedPage.Store.Memory
import BandedPage.Target.Raster
import BandedPage.Writer.Rationed
import BandedPage.Writer.Session
import BandedPage.Proofs.Replay.Copies
import BandedPage.Proofs.Writer.Pieces
import BandedPage.Proofs.Writer.Selecting
import BandedPage.Proofs.Operand.ImageHeader
import BandedPage.Proofs.Page.History
import BandedPage.Proofs.Path.Lines
import BandedPage.Proofs.Path.Winding
import BandedPage.Proofs.Replay.Commands
import BandedPage.Proofs.Writer.Copies
import BandedPage.Proofs.Writer.Current
import BandedPage.Proofs.Writer.Images
import BandedPage.Proofs.Imager.Sharing
import BandedPage.Proofs.Lockstep
import BandedPage.Proofs.Page.Independence
import BandedPage.Proofs.Page.Restart
import BandedPage.Proofs.Store.Log
import BandedPage.Proofs.Page.Rectangles
import BandedPage.Proofs.Page.Bitmaps
import BandedPage.Proofs.Page.Paths
import BandedPage.Proofs.Page.Requests
import BandedPage.Proofs.Page.Granting
import BandedPage.Proofs.Page.PathCalls
import BandedPage.Proofs.Page.Winding
import BandedPage.Proofs.Path.Origin
import BandedPage.Proofs.Page.Once
import BandedPage.Proofs.Page.Coherence
import BandedPage.Proofs.Page.Strokes
import BandedPage.Proofs.Page.Reached
import BandedPage.Proofs.Page.Copied
import BandedPage.Proofs.Page.Tiled
import BandedPage.Proofs.Page.Delivery
import BandedPage.Proofs.Bands
import BandedPage.Proofs.Clip
import BandedPage.Proofs.Tile.Keeping
import BandedPage.Proofs.Bits.Moving
import BandedPage.Proofs.Writer.Efforts
import BandedPage.Proofs.Imager.Reach
import BandedPage.Proofs.Replay.Corrupt
import BandedPage.Proofs.Facsimile.Corrupt
