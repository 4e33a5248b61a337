import BandedPage.Opcode

/-!
# Names of commands

The names under which a listing of a command stream shows its commands.
-/

namespace BandedPage

def ControlOp.name : ControlOp → String
  | endRun => "EndRun"
  | setTileSize => "SetTileSize"
  | setTilePhase => "SetTilePhase"
  | setTileBits => "SetTileBits"
  | setBits => "SetBits"
  | setTileColor => "SetTileColor"
  | setMisc => "SetMisc"
  | enableLop => "EnableLop"
  | disableLop => "DisableLop"
  | setHalftoneOrder => "SetHtOrder"
  | setHalftoneData => "SetHtData"
  | endPage => "EndPage"
  | colorDifference _ => "Delta2Color"
  | setCopyColor => "SetCopyColor"
  | setCopyAlpha => "SetCopyAlpha"

def StateOp.name : StateOp → String
  | setFlatness => "SetFlatness"
  | setFillAdjust => "SetFillAdjust"
  | setCtm => "SetCtm"
  | setLineWidth => "SetLineWidth"
  | setOptions => "SetMisc2"
  | setMiterLimit => "SetMiterLimit"
  | setDash => "SetDash"
  | enableClip => "EnableClip"
  | disableClip => "DisableClip"
  | beginClip => "BeginClip"
  | endClip => "EndClip"
  | setColorSpace => "SetColorSpace"
  | beginImage => "BeginImage"
  | imageData => "ImageData"
  | setColor => "SetColor"
  | putParams => "PutParams"

def SegmentOp.name : SegmentOp → String
  | move => "RMoveTo"
  | line => "RLineTo"
  | hline => "HLineTo"
  | vline => "VLineTo"
  | moveLine => "RMLineTo"
  | moveLine2 => "RM2LineTo"
  | moveLine3 => "RM3LineTo"
  | curve => "RRCurveTo"
  | hvCurve => "HVCurveTo"
  | vhCurve => "VHCurveTo"
  | nrCurve => "NRCurveTo"
  | rnCurve => "RNCurveTo"
  | vqCurve => "VQCurveTo"
  | hqCurve => "HQCurveTo"
  | close => "ClosePath"

def PathOp.name : PathOp → String
  | fill _ => "Fill"
  | evenOddFill _ => "EoFill"
  | stroke _ => "Stroke"

def PathOp.source : PathOp → ColorSource
  | fill s | evenOddFill s | stroke s => s

def ColorSource.name : ColorSource → String
  | pure => "Pure"
  | halftone => "Halftone"
  | colored => "Colored"

def RectForm.name : RectForm → String
  | full => "Full"
  | short => "Short"
  | tiny => "Tiny"

/-- The family of a command, by the high half of its code. -/
def Op.family : Op → String
  | control _ => "Misc"
  | setColor _ _ => "SetColor"
  | fillRect _ _ => "FillRect"
  | tileRect _ _ => "TileRect"
  | copyMono _ => "CopyMono"
  | copyDeep _ => "CopyColorAlpha"
  | tileIndexDifference _ => "DeltaTileIndex"
  | setTileIndex _ => "SetTileIndex"
  | state _ => "Ext"
  | segment _ => "Segment"
  | path _ => "Path"

end BandedPage
