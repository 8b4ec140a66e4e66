import Rcllite.MsgRoundTrip
import Rcllite.PyCdr

/-! The message classes of `pyrcllite.messages`. Each comes with its `_write`
and `_read`, the schema the C++ generator works from, and the C++ value with the
same fields, which exists when every integer is in range, every `str` is free of
surrogates and every array has its length. -/
namespace Rcllite.Py

/-- The C++ type of the integer format. -/
def IntFormat.prim : IntFormat → Prim
  | .B => .uint8
  | .i => .int32
  | .I => .uint32

def IntFormat.word : (f : IntFormat) → ℤ → f.prim.Val
  | .B, n => BitVec.ofInt 8 n
  | .i, n => BitVec.ofInt 32 n
  | .I, n => BitVec.ofInt 32 n

def IntFormat.toCpp (f : IntFormat) (n : ℤ) : Option f.prim.Val :=
  if f.InRange n then some (f.word n) else none

def toUint8 (n : ℤ) : Option (Prim.Val .uint8) := IntFormat.toCpp .B n
def toInt32 (n : ℤ) : Option (Prim.Val .int32) := IntFormat.toCpp .i n
def toUint32 (n : ℤ) : Option (Prim.Val .uint32) := IntFormat.toCpp .I n

def toChars (s : PyStr) : Option (List UInt8) := (encodeUtf8 s).toOption

def byteVal (b : UInt8) : Prim.Val .uint8 := b.toBitVec

/-- The `uint8[]` of a `bytes`. -/
def toUint8s (data : List UInt8) : List (Prim.Val .uint8) := data.map byteVal

def toDoubles (n : ℕ) (values : List (BitVec 64)) : Option (List.Vector (Prim.Val .float64) n) :=
  if h : values.length = n then some ⟨values, h⟩ else none

structure Empty where

def Empty.write (_ : Empty) (w : CdrWriter) : Except PyError CdrWriter := .ok w
def Empty.read : Decoder Empty := pure {}
def emptySchema : Members := .nil
def Empty.toCpp (_ : Empty) : Option emptySchema.Val := some ()

structure Time where
  sec : ℤ
  nanosec : ℤ

namespace Time

def write (m : Time) (w : CdrWriter) : Except PyError CdrWriter := do
  let w ← w.int32 m.sec
  w.uint32 m.nanosec

def read : Decoder Time := do
  let sec ← Decoder.int32
  let nanosec ← Decoder.uint32
  pure { sec, nanosec }

def schema : Members := .cons "sec" .scalar (.prim .int32) <| .cons "nanosec" .scalar (.prim .uint32) .nil

def toCpp (m : Time) : Option schema.Val := do
  let sec ← toInt32 m.sec
  let nanosec ← toUint32 m.nanosec
  pure (sec, nanosec, ())

end Time

structure Header where
  stamp : Time
  frameId : PyStr

namespace Header

def write (m : Header) (w : CdrWriter) : Except PyError CdrWriter := do
  let w ← m.stamp.write w
  w.string m.frameId

def read : Decoder Header := do
  let stamp ← Time.read
  let frameId ← Decoder.string
  pure { stamp, frameId }

def schema : Members :=
  .cons "stamp" .scalar (.nested "builtin_interfaces" "Time" Time.schema) <| .cons "frame_id" .scalar .string .nil

def toCpp (m : Header) : Option schema.Val := do
  let stamp ← m.stamp.toCpp
  let frameId ← toChars m.frameId
  pure (stamp, frameId, ())

end Header

/-- `geometry_msgs/Point`; `Vector3` has the same fields and the same code. -/
structure Point where
  x : BitVec 64
  y : BitVec 64
  z : BitVec 64

namespace Point

def write (m : Point) (w : CdrWriter) : Except PyError CdrWriter := do
  let w ← w.float64 m.x
  let w ← w.float64 m.y
  w.float64 m.z

def read : Decoder Point := do
  let x ← Decoder.float64
  let y ← Decoder.float64
  let z ← Decoder.float64
  pure { x, y, z }

def schema : Members :=
  .cons "x" .scalar (.prim .float64) <| .cons "y" .scalar (.prim .float64) <|
    .cons "z" .scalar (.prim .float64) .nil

def toCpp (m : Point) : schema.Val := (m.x, m.y, m.z, ())

end Point

abbrev Vector3 := Point

structure Quaternion where
  x : BitVec 64
  y : BitVec 64
  z : BitVec 64
  w : BitVec 64

namespace Quaternion

def write (m : Quaternion) (w : CdrWriter) : Except PyError CdrWriter := do
  let w ← w.float64 m.x
  let w ← w.float64 m.y
  let w ← w.float64 m.z
  w.float64 m.w

def read : Decoder Quaternion := do
  let x ← Decoder.float64
  let y ← Decoder.float64
  let z ← Decoder.float64
  let w ← Decoder.float64
  pure { x, y, z, w }

def schema : Members :=
  .cons "x" .scalar (.prim .float64) <| .cons "y" .scalar (.prim .float64) <|
    .cons "z" .scalar (.prim .float64) <| .cons "w" .scalar (.prim .float64) .nil

def toCpp (m : Quaternion) : schema.Val := (m.x, m.y, m.z, m.w, ())

end Quaternion

structure Pose where
  position : Point
  orientation : Quaternion

namespace Pose

def write (m : Pose) (w : CdrWriter) : Except PyError CdrWriter := do
  let w ← m.position.write w
  m.orientation.write w

def read : Decoder Pose := do
  let position ← Point.read
  let orientation ← Quaternion.read
  pure { position, orientation }

def schema : Members :=
  .cons "position" .scalar (.nested "geometry_msgs" "Point" Point.schema) <|
    .cons "orientation" .scalar (.nested "geometry_msgs" "Quaternion" Quaternion.schema) .nil

def toCpp (m : Pose) : schema.Val := (m.position.toCpp, m.orientation.toCpp, ())

end Pose

structure PoseStamped where
  header : Header
  pose : Pose

namespace PoseStamped

def write (m : PoseStamped) (w : CdrWriter) : Except PyError CdrWriter := do
  let w ← m.header.write w
  m.pose.write w

def read : Decoder PoseStamped := do
  let header ← Header.read
  let pose ← Pose.read
  pure { header, pose }

def schema : Members :=
  .cons "header" .scalar (.nested "std_msgs" "Header" Header.schema) <|
    .cons "pose" .scalar (.nested "geometry_msgs" "Pose" Pose.schema) .nil

def toCpp (m : PoseStamped) : Option schema.Val := do
  let header ← m.header.toCpp
  pure (header, m.pose.toCpp, ())

end PoseStamped

structure Transform where
  translation : Vector3
  rotation : Quaternion

namespace Transform

def write (m : Transform) (w : CdrWriter) : Except PyError CdrWriter := do
  let w ← m.translation.write w
  m.rotation.write w

def read : Decoder Transform := do
  let translation ← Point.read
  let rotation ← Quaternion.read
  pure { translation, rotation }

def schema : Members :=
  .cons "translation" .scalar (.nested "geometry_msgs" "Vector3" Point.schema) <|
    .cons "rotation" .scalar (.nested "geometry_msgs" "Quaternion" Quaternion.schema) .nil

def toCpp (m : Transform) : schema.Val := (m.translation.toCpp, m.rotation.toCpp, ())

end Transform

structure TransformStamped where
  header : Header
  childFrameId : PyStr
  transform : Transform

namespace TransformStamped

def write (m : TransformStamped) (w : CdrWriter) : Except PyError CdrWriter := do
  let w ← m.header.write w
  let w ← w.string m.childFrameId
  m.transform.write w

def read : Decoder TransformStamped := do
  let header ← Header.read
  let childFrameId ← Decoder.string
  let transform ← Transform.read
  pure { header, childFrameId, transform }

def schema : Members :=
  .cons "header" .scalar (.nested "std_msgs" "Header" Header.schema) <|
    .cons "child_frame_id" .scalar .string <|
    .cons "transform" .scalar (.nested "geometry_msgs" "Transform" Transform.schema) .nil

def toCpp (m : TransformStamped) : Option schema.Val := do
  let header ← m.header.toCpp
  let childFrameId ← toChars m.childFrameId
  pure (header, childFrameId, m.transform.toCpp, ())

end TransformStamped

structure Image where
  header : Header
  height : ℤ
  width : ℤ
  encoding : PyStr
  isBigendian : ℤ
  step : ℤ
  data : List UInt8

namespace Image

def write (m : Image) (w : CdrWriter) : Except PyError CdrWriter := do
  let w ← m.header.write w
  let w ← w.uint32 m.height
  let w ← w.uint32 m.width
  let w ← w.string m.encoding
  let w ← w.uint8 m.isBigendian
  let w ← w.uint32 m.step
  w.byteSequence m.data

def read : Decoder Image := do
  let header ← Header.read
  let height ← Decoder.uint32
  let width ← Decoder.uint32
  let encoding ← Decoder.string
  let isBigendian ← Decoder.uint8
  let step ← Decoder.uint32
  let data ← Decoder.byteSequence
  pure { header, height, width, encoding, isBigendian, step, data }

def schema : Members :=
  .cons "header" .scalar (.nested "std_msgs" "Header" Header.schema) <|
    .cons "height" .scalar (.prim .uint32) <| .cons "width" .scalar (.prim .uint32) <|
    .cons "encoding" .scalar .string <| .cons "is_bigendian" .scalar (.prim .uint8) <|
    .cons "step" .scalar (.prim .uint32) <| .cons "data" .seq (.prim .uint8) .nil

def toCpp (m : Image) : Option schema.Val := do
  let header ← m.header.toCpp
  let height ← toUint32 m.height
  let width ← toUint32 m.width
  let encoding ← toChars m.encoding
  let isBigendian ← toUint8 m.isBigendian
  let step ← toUint32 m.step
  pure (header, height, width, encoding, isBigendian, step, toUint8s m.data, ())

end Image

structure RegionOfInterest where
  xOffset : ℤ
  yOffset : ℤ
  height : ℤ
  width : ℤ
  doRectify : Bool

namespace RegionOfInterest

def write (m : RegionOfInterest) (w : CdrWriter) : Except PyError CdrWriter := do
  let w ← w.uint32 m.xOffset
  let w ← w.uint32 m.yOffset
  let w ← w.uint32 m.height
  let w ← w.uint32 m.width
  w.boolean m.doRectify

def read : Decoder RegionOfInterest := do
  let xOffset ← Decoder.uint32
  let yOffset ← Decoder.uint32
  let height ← Decoder.uint32
  let width ← Decoder.uint32
  let doRectify ← Decoder.boolean
  pure { xOffset, yOffset, height, width, doRectify }

def schema : Members :=
  .cons "x_offset" .scalar (.prim .uint32) <| .cons "y_offset" .scalar (.prim .uint32) <|
    .cons "height" .scalar (.prim .uint32) <| .cons "width" .scalar (.prim .uint32) <|
    .cons "do_rectify" .scalar (.prim .bool) .nil

def toCpp (m : RegionOfInterest) : Option schema.Val := do
  let xOffset ← toUint32 m.xOffset
  let yOffset ← toUint32 m.yOffset
  let height ← toUint32 m.height
  let width ← toUint32 m.width
  pure (xOffset, yOffset, height, width, m.doRectify, ())

end RegionOfInterest

structure CameraInfo where
  header : Header
  height : ℤ
  width : ℤ
  distortionModel : PyStr
  d : List (BitVec 64)
  k : List (BitVec 64)
  r : List (BitVec 64)
  p : List (BitVec 64)
  binningX : ℤ
  binningY : ℤ
  roi : RegionOfInterest

namespace CameraInfo

def write (m : CameraInfo) (w : CdrWriter) : Except PyError CdrWriter := do
  let w ← m.header.write w
  let w ← w.uint32 m.height
  let w ← w.uint32 m.width
  let w ← w.string m.distortionModel
  let w ← w.doubleSequence m.d
  let w ← w.doubles m.k
  let w ← w.doubles m.r
  let w ← w.doubles m.p
  let w ← w.uint32 m.binningX
  let w ← w.uint32 m.binningY
  m.roi.write w

def read : Decoder CameraInfo := do
  let header ← Header.read
  let height ← Decoder.uint32
  let width ← Decoder.uint32
  let distortionModel ← Decoder.string
  let d ← Decoder.doubleSequence
  let k ← Decoder.doubles 9
  let r ← Decoder.doubles 9
  let p ← Decoder.doubles 12
  let binningX ← Decoder.uint32
  let binningY ← Decoder.uint32
  let roi ← RegionOfInterest.read
  pure { header, height, width, distortionModel, d, k, r, p, binningX, binningY, roi }

def schema : Members :=
  .cons "header" .scalar (.nested "std_msgs" "Header" Header.schema) <|
    .cons "height" .scalar (.prim .uint32) <| .cons "width" .scalar (.prim .uint32) <|
    .cons "distortion_model" .scalar .string <| .cons "d" .seq (.prim .float64) <|
    .cons "k" (.array 9) (.prim .float64) <| .cons "r" (.array 9) (.prim .float64) <|
    .cons "p" (.array 12) (.prim .float64) <| .cons "binning_x" .scalar (.prim .uint32) <|
    .cons "binning_y" .scalar (.prim .uint32) <|
    .cons "roi" .scalar (.nested "sensor_msgs" "RegionOfInterest" RegionOfInterest.schema) .nil

def toCpp (m : CameraInfo) : Option schema.Val := do
  let header ← m.header.toCpp
  let height ← toUint32 m.height
  let width ← toUint32 m.width
  let distortionModel ← toChars m.distortionModel
  let k ← toDoubles 9 m.k
  let r ← toDoubles 9 m.r
  let p ← toDoubles 12 m.p
  let binningX ← toUint32 m.binningX
  let binningY ← toUint32 m.binningY
  let roi ← m.roi.toCpp
  pure (header, height, width, distortionModel, m.d, k, r, p, binningX, binningY, roi, ())

end CameraInfo

/-- `std_msgs/String`. -/
structure StringMsg where
  data : PyStr

namespace StringMsg

def write (m : StringMsg) (w : CdrWriter) : Except PyError CdrWriter := w.string m.data

def read : Decoder StringMsg := do
  let data ← Decoder.string
  pure { data }

def toCpp (m : StringMsg) : Option stringSchema.Val := do
  let data ← toChars m.data
  pure (data, ())

end StringMsg

/-- A topic-capable class, and the schema it stands for. -/
structure Message (M : Type) (schema : Members) where
  write : M → CdrWriter → Except PyError CdrWriter
  read : Decoder M
  toCpp : M → Option schema.Val

namespace Message
variable {M : Type} {schema : Members}

def serialize (msg : Message M schema) (m : M) : Except PyError (List UInt8) :=
  (msg.write m CdrWriter.new).map CdrWriter.payload

def fromCdr (msg : Message M schema) (data : List UInt8) : Except PyError M :=
  match CdrReader.new data with
  | .ok r => (msg.read.run pyStep r).map Prod.fst
  | .error e => .error e

end Message

def emptyMessage : Message Empty emptySchema := ⟨Empty.write, Empty.read, Empty.toCpp⟩
def stringMessage : Message StringMsg stringSchema := ⟨StringMsg.write, StringMsg.read, StringMsg.toCpp⟩
def poseStampedMessage : Message PoseStamped PoseStamped.schema :=
  ⟨PoseStamped.write, PoseStamped.read, PoseStamped.toCpp⟩
def transformStampedMessage : Message TransformStamped TransformStamped.schema :=
  ⟨TransformStamped.write, TransformStamped.read, TransformStamped.toCpp⟩
def imageMessage : Message Image Image.schema := ⟨Image.write, Image.read, Image.toCpp⟩
def cameraInfoMessage : Message CameraInfo CameraInfo.schema :=
  ⟨CameraInfo.write, CameraInfo.read, CameraInfo.toCpp⟩

end Rcllite.Py
