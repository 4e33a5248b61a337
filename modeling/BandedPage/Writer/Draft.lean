import BandedPage.Band.State
import BandedPage.Clip
import BandedPage.Command.Basic
import BandedPage.Command.Imager
import BandedPage.Operand.Rect

/-!
# Drafts of commands for a band

A band operation collects its commands together with what the band will know once it has got them.
Nothing of a draft counts until all of its commands are held, so one that cannot be held is thrown
away and drawn up again. Each step sends what the band does not know yet and nothing else.
-/

namespace BandedPage

/-- Commands for a band, not yet held. -/
structure BandDraft where
  band : Nat
  /-- What the band knows after the commands. -/
  state : BandState
  commands : Array Command := #[]
  /-- Entries of the tile cache whose bits are among the commands. -/
  sent : List Nat := []

namespace BandDraft

def emit (d : BandDraft) (c : Command) : BandDraft := { d with commands := d.commands.push c }

/-- Add the command that draws a rectangle, or that makes it part of a clip. -/
def rect (d : BandDraft) (base : UInt8) (r : Rect) : BandDraft :=
  let r := SizedRect.ofRect r
  { d.emit (RectCommand.encode base r d.state.rect) with state := { d.state with rect := r } }

/-- Send the required fields of an imager state, apart from the clip. -/
def tellFields (d : BandDraft) (required : FieldSet) (s : ImagerState) (cs : ColorSpace) :
    BandDraft :=
  let missing := d.state.missing required \ .singleton .clip
  let fields := StateField.all.filter missing.contains
  { d with
    state := { d.state with known := d.state.known ∪ missing }
    commands := d.commands ++ fields.map (Command.ofField s cs) }

/-- Send a clip to a band with the given pixels. -/
def tellClip (d : BandDraft) (area : Rect) (clip : ClipPath) : BandDraft :=
  if d.state.known.contains .clip then d
  else
    let rects := clip.rectsInRows area.y1 area.y2
    let d := rects.foldl (fun d r => d.rect Opcode.fillRect r) (d.emit Command.beginClip)
    { d.emit (Command.endClip clip.outside) with
      state := { d.state with known := d.state.known.insert .clip } }

def switchClip (d : BandDraft) (on : Bool) : BandDraft :=
  if d.state.clipEnabled = on then d
  else { d.emit (Command.clipSwitch on) with state := { d.state with clipEnabled := on } }

def useClip (d : BandDraft) (area : Rect) : Option ClipPath → BandDraft
  | some clip => (d.tellClip area clip).switchClip true
  | none => d.switchClip false

/-- Draw with a logical operation. Rectangles obey it only if it is enabled for them, which pays
unless it is the default. -/
def useLop (d : BandDraft) (lop : LogicalOp) (forRects : Bool) : BandDraft :=
  let d := if d.state.lop = lop then d
    else { d.emit (Command.lop lop) with state := { d.state with lop } }
  let on := forRects && lop != .default
  if d.state.lopEnabled = on then d
  else { d.emit (Command.lopSwitch on) with state := { d.state with lopEnabled := on } }

def useColor (d : BandDraft) (depth : Nat) (slot : ColorSlot) (color : Color) : BandDraft :=
  let last := d.state.colors.get slot
  if last = color then d
  else
    { d.emit (Command.color slot color last depth) with
      state := { d.state with colors := d.state.colors.set slot color } }

def useColors (d : BandDraft) (depth : Nat) (colors : ColorPair) : BandDraft :=
  (d.useColor depth .zero colors.zero).useColor depth .one colors.one

def useTileColor (d : BandDraft) (depth : Nat) (slot : ColorSlot) (color : Color) : BandDraft :=
  let last := d.state.tileColors.get slot
  if last = color then d
  else
    { d.emit (Command.tileColor slot color last depth) with
      state := { d.state with tileColors := d.state.tileColors.set slot color } }

def useTileColors (d : BandDraft) (depth : Nat) (colors : ColorPair) : BandDraft :=
  (d.useTileColor depth .zero colors.zero).useTileColor depth .one colors.one

def useTilePhase (d : BandDraft) (phase : Phase) : BandDraft :=
  if d.state.tilePhase = phase then d
  else { d.emit (Command.tilePhase phase) with state := { d.state with tilePhase := phase } }

/-- Let copies carry coverage, or colors. -/
def useCopyMode (d : BandDraft) (alpha : Bool) : BandDraft :=
  if d.state.copiesAlpha = alpha then d
  else { d.emit (Command.copyMode alpha) with state := { d.state with copiesAlpha := alpha } }

/-- Select a tile that the band has. -/
def useTileIndex (d : BandDraft) (index : Nat) : BandDraft :=
  if d.state.tileIndex = index then d
  else
    { d.emit (Command.tileIndex index d.state.tileIndex) with
      state := { d.state with tileIndex := index } }

/-- Send the bits of a tile, which selects it. -/
def sendTile (d : BandDraft) (index : Nat) (bits : Command) : BandDraft :=
  { d.emit bits with
    state := { d.state with tileIndex := index }
    sent := index :: d.sent }

end BandDraft

end BandedPage
