import MrubyZmq.Ruby
import MrubyZmq.Significand

/-!
# Socket options

`LibZMQ.setsockopt` gives an option to libzmq by the type of its value: an
Integer as an `int`, a Float as an `int64_t`, a String as its bytes. The setters
of `ZMQ::Socket` convert what they are given to one of these types first.
-/

namespace MrubyZmq

/-- A Ruby object, as the `switch` of `mrb_zmq_setsockopt` sees it. -/
inductive OptionValue
  | nil
  | false
  | true
  | integer (n : ℤ)
  /-- A Float by its integral part, which it has if it is finite. -/
  | float (integral : Option ℤ)
  | string (s : Bytes)
  | object
  deriving DecidableEq, Repr

/-- Neither `nil` nor `false`. -/
def OptionValue.truthy : OptionValue → Bool
  | .nil | .false => Bool.false
  | _ => Bool.true

/-- The value of an option as libzmq is given it. -/
inductive Optval
  | null
  | int (number : Int32)
  /-- An `int64_t`, if the conversion of the `double` to it is defined. -/
  | int64 (number : Option Int64)
  | bytes (s : Bytes)
  deriving DecidableEq, Repr

/-- A Ruby object given to a setter, with what its conversions return. -/
structure OptionArg where
  value : OptionValue
  toStr : Except Err OptionValue
  toF : Except Err OptionValue

namespace OptionArg

/-- An Integer: `to_f` is the nearest `double`. -/
protected def int (n : ℤ) : OptionArg where
  value := .integer n
  toStr := .error (.noMethodError "to_str")
  toF := .ok (.float (some (roundInt 53 n)))

end OptionArg

/-- The constants of `LibZMQ`. -/
def AFFINITY : ℤ := 4
def FD : ℤ := 14
def LINGER : ℤ := 17
def MAXMSGSIZE : ℤ := 22
def CURVE_SERVER : ℤ := 47
def CURVE_PUBLICKEY : ℤ := 48
def CURVE_SECRETKEY : ℤ := 49
def CURVE_SERVERKEY : ℤ := 50
def ZAP_DOMAIN : ℤ := 55

/-- `(int64_t) number`, for a `double` with this integral part. -/
def toInt64 (integral : ℤ) : Option Int64 :=
  if -2 ^ 63 ≤ integral ∧ integral < 2 ^ 63 then some (.ofInt integral) else none

/-- `LibZMQ.setsockopt`: what `mrb_zmq_setsockopt` calls `zmq_setsockopt` with. -/
def libzmqSetsockopt (optionName : ℤ) (optionValue : OptionValue) :
    Except Err (Int32 × Optval) := do
  let optionName ← intArg optionName
  match optionValue with
  | .nil => return (optionName, .null)
  | .false => return (optionName, .int 0)
  | .true => return (optionName, .int 1)
  | .integer n => return (optionName, .int (.ofInt n))
  | .float integral => return (optionName, .int64 (integral.bind toInt64))
  | .string s => return (optionName, .bytes s)
  | .object => .error (.typeError "expected nil|false|true|Integer|Float|String as value")

/-- The setters of booleans. -/
def booleanSetter (const : ℤ) (optionValue : OptionValue) : Except Err (Int32 × Optval) :=
  libzmqSetsockopt const (if optionValue.truthy then .true else .false)

/-- The setters of data, whose argument is optional. -/
def dataSetter (const : ℤ) (optionValue : Option OptionArg) : Except Err (Int32 × Optval) :=
  match optionValue with
  | some v =>
    if v.value.truthy then v.toStr.bind (libzmqSetsockopt const)
    else libzmqSetsockopt const .nil
  | none => libzmqSetsockopt const .nil

/-- The setters of 64 bit integers. -/
def int64Setter (const : ℤ) (optionValue : OptionArg) : Except Err (Int32 × Optval) :=
  optionValue.toF.bind (libzmqSetsockopt const)

/-- `affinity=`. -/
def setAffinity : OptionArg → Except Err (Int32 × Optval) := int64Setter AFFINITY

/-- `maxmsgsize=`. -/
def setMaxmsgsize : OptionArg → Except Err (Int32 × Optval) := int64Setter MAXMSGSIZE

/-- `curve_server=`. -/
def setCurveServer : OptionValue → Except Err (Int32 × Optval) := booleanSetter CURVE_SERVER

/-- `curve_publickey=`. -/
def setCurvePublickey : Option OptionArg → Except Err (Int32 × Optval) :=
  dataSetter CURVE_PUBLICKEY

/-- `curve_secretkey=`. -/
def setCurveSecretkey : Option OptionArg → Except Err (Int32 × Optval) :=
  dataSetter CURVE_SECRETKEY

/-- `curve_serverkey=`. -/
def setCurveServerkey : Option OptionArg → Except Err (Int32 × Optval) :=
  dataSetter CURVE_SERVERKEY

/-- `zap_domain=`. -/
def setZapDomain : Option OptionArg → Except Err (Int32 × Optval) := dataSetter ZAP_DOMAIN

end MrubyZmq
