import MrubyZmq.Sockopt
import MrubyZmq.Writes

/-!
# Configuring CURVE

`curve_security` sets the options of a role one after the other, from a Hash in
which keys may be missing, and with values which libzmq may reject. It should
either set all of them, or raise and change nothing (`Atomic`).

An exception leaves the options as they were exactly if those set before it had
their values already (`atomic_iff`).
-/

namespace MrubyZmq

/-- How a socket authenticates its peers. -/
inductive Mechanism
  | null
  | plain
  | curve
  | gssapi
  deriving DecidableEq, Repr

/-- The options of a socket which `curve_security` is about. -/
structure Security where
  curveServer : Bool := false
  mechanism : Mechanism := .null
  publicKey : Bytes := []
  secretKey : Bytes := []
  serverKey : Bytes := []
  zapDomain : Bytes := []
  deriving DecidableEq, Repr

/-- What libzmq makes of the value of an option. -/
structure Libzmq where
  /-- It accepts the value. -/
  accepts : Int32 × Optval → Bool
  /-- The key in an accepted value, which may be encoded by Z85. -/
  curveKey : Optval → Bytes
  /-- The text in an accepted value. -/
  text : Optval → Bytes

/-- The roles. -/
inductive Role
  | server
  | client
  deriving DecidableEq, Repr

/-- The Hash given to `curve_security`. -/
structure CurveOptions where
  /-- The role, if `options[:type]` is one. -/
  type : Option Role
  publicKey : Option OptionArg := none
  secretKey : Option OptionArg := none
  serverKey : Option OptionArg := none
  /-- What `options[:zap_domain]` returns, if it is not `nil`. -/
  zapDomain : Option OptionArg := none

namespace Libzmq

variable (z : Libzmq)

/-- What `zmq_setsockopt` does with an accepted value. -/
def assign (option : Int32) (optval : Optval) (s : Security) : Security :=
  if option = .ofInt CURVE_SERVER then
    if optval = .int 0 then { s with curveServer := false, mechanism := .null }
    else { s with curveServer := true, mechanism := .curve }
  else if option = .ofInt CURVE_PUBLICKEY then
    { s with publicKey := z.curveKey optval, mechanism := .curve }
  else if option = .ofInt CURVE_SECRETKEY then
    { s with secretKey := z.curveKey optval, mechanism := .curve }
  else if option = .ofInt CURVE_SERVERKEY then
    { s with serverKey := z.curveKey optval, curveServer := false, mechanism := .curve }
  else if option = .ofInt ZAP_DOMAIN then { s with zapDomain := z.text optval }
  else s

/-- `zmq_setsockopt`, with the arguments a setter calls it with: the option is
    set, or an exception raised. -/
def setsockopt (args : Except Err (Int32 × Optval)) : Except Err (Security → Security) :=
  args.bind fun a =>
    if z.accepts a then .ok (z.assign a.1 a.2) else .error (.libzmq "zmq_setsockopt")

end Libzmq

/-- `Hash#fetch`. -/
def fetch (key : String) (value : Option OptionArg) : Except Err OptionArg :=
  match value with
  | some v => .ok v
  | none => .error (.keyError key)

/-- `curve_security`. -/
def curveSecurity (z : Libzmq) (options : CurveOptions) : Effect Err Security Unit := do
  match options.type with
  | some .server =>
    write (z.setsockopt (setCurveServer .true))
    let secretKey ← Effect.ofExcept (fetch "secret_key" options.secretKey)
    write (z.setsockopt (setCurveSecretkey (some secretKey)))
    write (z.setsockopt (setZapDomain options.zapDomain))
  | some .client =>
    let serverKey ← Effect.ofExcept (fetch "server_key" options.serverKey)
    write (z.setsockopt (setCurveServerkey (some serverKey)))
    let publicKey ← Effect.ofExcept (fetch "public_key" options.publicKey)
    write (z.setsockopt (setCurvePublickey (some publicKey)))
    let secretKey ← Effect.ofExcept (fetch "secret_key" options.secretKey)
    write (z.setsockopt (setCurveSecretkey (some secretKey)))
  | none => Effect.raise (.argumentError ":type can only be :server or :client")
  let s ← Effect.get
  if s.mechanism ≠ .curve then Effect.raise (.libzmqError "cannot set curve security")

/-- What is set for the role, in order, or the exceptions raised instead. -/
def CurveOptions.writes (z : Libzmq) (options : CurveOptions) :
    List (Except Err (Security → Security)) :=
  match options.type with
  | some .server =>
    [z.setsockopt (setCurveServer .true),
      z.setsockopt ((fetch "secret_key" options.secretKey).bind fun v =>
        setCurveSecretkey (some v)),
      z.setsockopt (setZapDomain options.zapDomain)]
  | some .client =>
    [z.setsockopt ((fetch "server_key" options.serverKey).bind fun v => setCurveServerkey (some v)),
      z.setsockopt ((fetch "public_key" options.publicKey).bind fun v =>
        setCurvePublickey (some v)),
      z.setsockopt ((fetch "secret_key" options.secretKey).bind fun v =>
        setCurveSecretkey (some v))]
  | none => []

/-- The options of the role, and nothing else, are set from the Hash. -/
def Configured (z : Libzmq) (options : CurveOptions) (s s' : Security) : Prop :=
  match options.type with
  | some .server => ∃ secretKey key domain, options.secretKey = some secretKey ∧
      setCurveSecretkey (some secretKey) = .ok (.ofInt CURVE_SECRETKEY, key) ∧
      setZapDomain options.zapDomain = .ok (.ofInt ZAP_DOMAIN, domain) ∧
      s' =
        { s with
          curveServer := true
          mechanism := .curve
          secretKey := z.curveKey key
          zapDomain := z.text domain }
  | some .client => ∃ serverKey publicKey secretKey key₁ key₂ key₃,
      options.serverKey = some serverKey ∧ options.publicKey = some publicKey ∧
      options.secretKey = some secretKey ∧
      setCurveServerkey (some serverKey) = .ok (.ofInt CURVE_SERVERKEY, key₁) ∧
      setCurvePublickey (some publicKey) = .ok (.ofInt CURVE_PUBLICKEY, key₂) ∧
      setCurveSecretkey (some secretKey) = .ok (.ofInt CURVE_SECRETKEY, key₃) ∧
      s' =
        { s with
          curveServer := false
          mechanism := .curve
          serverKey := z.curveKey key₁
          publicKey := z.curveKey key₂
          secretKey := z.curveKey key₃ }
  | none => False

/-- `curve_security` returns and has set the options of the role, with CURVE as
    mechanism, or it raises and has changed nothing. -/
def Atomic (z : Libzmq) (options : CurveOptions) (s : Security) : Prop :=
  (∀ s', curveSecurity z options s = (.ok (), s') →
    s'.mechanism = .curve ∧ Configured z options s s') ∧
  ∀ e s', curveSecurity z options s = (.error e, s') → s' = s

variable {z : Libzmq} {options : CurveOptions} {s s' : Security} {const : ℤ} {e : Err}
  {value : OptionValue} {v : Option OptionArg} {args : Except Err (Int32 × Optval)}
  {a : Int32 × Optval} {f g : Security → Security} {optval : Optval}

/-! ## Setting an option -/

theorem libzmqSetsockopt_fst (h : libzmqSetsockopt const value = .ok a) :
    a.1 = .ofInt const := by
  rw [libzmqSetsockopt, intArg] at h
  split at h
  · cases value <;>
      first | exact Except.ok.inj h ▸ rfl | exact absurd h (by simp [bind, Except.bind])
  · exact absurd h (by simp [bind, Except.bind])

theorem dataSetter_fst (h : dataSetter const v = .ok a) : a.1 = .ofInt const := by
  rcases v with _ | v
  · exact libzmqSetsockopt_fst (show libzmqSetsockopt const .nil = .ok a from h)
  · rw [dataSetter] at h
    split at h
    · rcases hv : v.toStr with e | value
      · rw [hv] at h
        exact absurd h (by simp [Except.bind])
      · rw [hv] at h
        exact libzmqSetsockopt_fst h
    · exact libzmqSetsockopt_fst h

/-- An option that is set is assigned its value. -/
theorem Libzmq.of_setsockopt (h : z.setsockopt args = .ok f) :
    ∃ a, args = .ok a ∧ f = z.assign a.1 a.2 := by
  rcases args with e | a
  · exact absurd h (by simp [setsockopt, Except.bind])
  · rw [setsockopt, Except.bind] at h
    split at h
    · exact ⟨a, rfl, (Except.ok.inj h).symm⟩
    · exact absurd h (by simp)

theorem Libzmq.of_dataSetter (h : z.setsockopt (dataSetter const v) = .ok f) :
    ∃ optval, dataSetter const v = .ok (.ofInt const, optval) ∧
      f = z.assign (.ofInt const) optval := by
  obtain ⟨⟨option, optval⟩, ha, rfl⟩ := of_setsockopt h
  obtain rfl := dataSetter_fst ha
  exact ⟨optval, ha, rfl⟩

theorem Libzmq.of_fetched {key : String}
    (h : z.setsockopt ((fetch key v).bind fun v => dataSetter const (some v)) = .ok f) :
    ∃ w optval, v = some w ∧ dataSetter const (some w) = .ok (.ofInt const, optval) ∧
      f = z.assign (.ofInt const) optval := by
  rcases v with _ | w
  · exact absurd h (by simp [fetch, setsockopt, Except.bind])
  · obtain ⟨optval, hw, hf⟩ :=
      of_dataSetter (show z.setsockopt (dataSetter const (some w)) = _ from h)
    exact ⟨w, optval, rfl, hw, hf⟩

theorem Libzmq.of_setCurveServer (h : z.setsockopt (setCurveServer .true) = .ok f) :
    f = z.assign (.ofInt CURVE_SERVER) (.int 1) := by
  obtain ⟨a, ha, rfl⟩ := of_setsockopt h
  obtain rfl := Except.ok.inj ha
  rfl

/-- It makes no difference whether an option is set to a value twice. -/
theorem Libzmq.assign_idem {option : Int32} :
    z.assign option optval (z.assign option optval s) = z.assign option optval s := by
  simp only [assign]
  split_ifs <;> rfl

/-! ## The options of a role -/

theorem mem_writes {w : Except Err (Security → Security)} (hw : w ∈ options.writes z) :
    ∃ args, w = z.setsockopt args := by
  rw [CurveOptions.writes] at hw
  split at hw
  · simp only [List.mem_cons, List.not_mem_nil, or_false] at hw
    rcases hw with rfl | rfl | rfl <;> exact ⟨_, rfl⟩
  · simp only [List.mem_cons, List.not_mem_nil, or_false] at hw
    rcases hw with rfl | rfl | rfl <;> exact ⟨_, rfl⟩
  · exact absurd hw List.not_mem_nil

/-- The options of a role are different ones. -/
theorem independent_writes : Independent (made (options.writes z)) := by
  refine .of_pairwise ?_ fun f hf s => ?_
  · rw [CurveOptions.writes]
    split
    · simp only [List.pairwise_cons, List.forall_mem_cons, List.not_mem_nil, IsEmpty.forall_iff,
        implies_true, List.Pairwise.nil, and_true]
      refine ⟨⟨fun f g hf hg s => ?_, fun f g hf hg s => ?_⟩, fun f g hf hg s => ?_⟩
      · obtain rfl := Libzmq.of_setCurveServer hf
        obtain ⟨_, _, -, -, rfl⟩ := Libzmq.of_fetched hg
        rfl
      · obtain rfl := Libzmq.of_setCurveServer hf
        obtain ⟨_, -, rfl⟩ := Libzmq.of_dataSetter hg
        rfl
      · obtain ⟨_, _, -, -, rfl⟩ := Libzmq.of_fetched hf
        obtain ⟨_, -, rfl⟩ := Libzmq.of_dataSetter hg
        rfl
    · simp only [List.pairwise_cons, List.forall_mem_cons, List.not_mem_nil, IsEmpty.forall_iff,
        implies_true, List.Pairwise.nil, and_true]
      -- All three are keys which are fetched, and imply CURVE.
      refine ⟨⟨fun f g hf hg s => ?_, fun f g hf hg s => ?_⟩, fun f g hf hg s => ?_⟩ <;>
      · obtain ⟨_, _, -, -, rfl⟩ := Libzmq.of_fetched hf
        obtain ⟨_, _, -, -, rfl⟩ := Libzmq.of_fetched hg
        rfl
    · exact .nil
  · obtain ⟨args, hargs⟩ := mem_writes hf
    obtain ⟨a, -, rfl⟩ := Libzmq.of_setsockopt hargs.symm
    exact Libzmq.assign_idem

/-- An exception raised by `fetch` takes the place of the write. -/
theorem fetched_bind {x : Except Err OptionArg} {set : OptionArg → Except Err (Int32 × Optval)}
    {k : Effect Err Security Unit} :
    (Effect.ofExcept x >>= fun v => write (z.setsockopt (set v)) >>= fun _ => k) =
      write (z.setsockopt (x.bind set)) >>= fun _ => k := by
  rcases x with e | v <;> rfl

/-- `curve_security`, by the list of what it sets. -/
theorem curveSecurity_eq : curveSecurity z options = match options.type with
    | some _ => do
      writeAll (options.writes z)
      let s ← Effect.get
      if s.mechanism ≠ .curve then Effect.raise (.libzmqError "cannot set curve security")
    | none => Effect.raise (.argumentError ":type can only be :server or :client") := by
  obtain ⟨type, publicKey, secretKey, serverKey, zapDomain⟩ := options
  rcases type with _ | (_ | _)
  · rfl
  · simp only [curveSecurity, CurveOptions.writes, fetched_bind, writeAll, Effect.bind_assoc,
      Effect.pure_bind]
  · simp only [curveSecurity, CurveOptions.writes, fetched_bind, writeAll, Effect.bind_assoc,
      Effect.pure_bind]

/-- If all the options of the role are set, they are what is asked for. -/
theorem configured_of_writes (htype : options.type ≠ none)
    (hw : writeAll (options.writes z) s = (.ok (), s')) :
    s'.mechanism = .curve ∧ Configured z options s s' := by
  rw [CurveOptions.writes] at hw
  rw [Configured]
  split at hw
  · obtain ⟨f, hf, hw⟩ := of_writeAll_cons hw
    obtain ⟨g, hg, hw⟩ := of_writeAll_cons hw
    obtain ⟨h, hh, hw⟩ := of_writeAll_cons hw
    obtain rfl := Libzmq.of_setCurveServer hf
    obtain ⟨secretKey, key, hsecret, hkey, rfl⟩ := Libzmq.of_fetched hg
    obtain ⟨domain, hdomain, rfl⟩ := Libzmq.of_dataSetter hh
    obtain rfl := (Prod.ext_iff.1 hw).2
    exact ⟨rfl, secretKey, key, domain, hsecret, hkey, hdomain, rfl⟩
  · obtain ⟨f, hf, hw⟩ := of_writeAll_cons hw
    obtain ⟨g, hg, hw⟩ := of_writeAll_cons hw
    obtain ⟨h, hh, hw⟩ := of_writeAll_cons hw
    obtain ⟨serverKey, key₁, hserver, hkey₁, rfl⟩ := Libzmq.of_fetched hf
    obtain ⟨publicKey, key₂, hpublic, hkey₂, rfl⟩ := Libzmq.of_fetched hg
    obtain ⟨secretKey, key₃, hsecret, hkey₃, rfl⟩ := Libzmq.of_fetched hh
    obtain rfl := (Prod.ext_iff.1 hw).2
    exact ⟨rfl, serverKey, publicKey, secretKey, key₁, key₂, key₃, hserver, hpublic, hsecret,
      hkey₁, hkey₂, hkey₃, rfl⟩
  · exact absurd ‹_› htype

/-- `curve_security` raises what setting the options raises. -/
theorem curveSecurity_error (h : writeAll (options.writes z) s = (.error e, s')) :
    curveSecurity z options s = (.error e, s') := by
  rw [curveSecurity_eq]
  rcases htype : options.type with _ | role
  · have hnil : options.writes z = [] := by
      rw [CurveOptions.writes, htype]
    rw [hnil] at h
    exact absurd (congrArg Prod.fst h) (by simp [writeAll])
  · exact Effect.bind_error h

/-- It raises nothing else once they are set: the mechanism is CURVE then. -/
theorem curveSecurity_ok (htype : options.type ≠ none)
    (h : writeAll (options.writes z) s = (.ok (), s')) :
    curveSecurity z options s = (.ok (), s') := by
  obtain ⟨role, hrole⟩ := Option.ne_none_iff_exists'.1 htype
  rw [curveSecurity_eq, hrole]
  refine (Effect.bind_ok h).trans ?_
  rw [Effect.bind_ok Effect.get_apply, if_neg (not_not.2 (configured_of_writes htype h).1)]
  rfl

/-- `curve_security` is all or nothing exactly if an exception is only raised
    after options that had their values already. -/
theorem atomic_iff (z : Libzmq) (options : CurveOptions) (s : Security) :
    Atomic z options s ↔ Unwritten (options.writes z) s := by
  -- With the options of the role set, the mechanism is CURVE, so that only the
  -- writes can raise.
  rw [← writeAll_unchanged_iff independent_writes]
  constructor
  · rintro ⟨-, herror⟩ e s' hw
    exact herror e s' (curveSecurity_error hw)
  · intro herror
    by_cases htype : options.type = none
    · rw [Atomic, curveSecurity_eq, htype]
      refine ⟨fun s' hs' => ?_, fun e s' hs' => ?_⟩
      · exact absurd (congrArg Prod.fst hs') (by simp)
      · exact (congrArg Prod.snd hs').symm
    · rcases hw : writeAll (options.writes z) s with ⟨e | u, t⟩
      · have hs := curveSecurity_error hw
        refine ⟨fun s' hs' => ?_, fun e' s' hs' => ?_⟩
        · exact absurd (hs.symm.trans hs') (by simp)
        · obtain rfl := congrArg Prod.snd (hs.symm.trans hs')
          exact herror e t hw
      · have hs := curveSecurity_ok htype hw
        refine ⟨fun s' hs' => ?_, fun e' s' hs' => ?_⟩
        · obtain rfl := congrArg Prod.snd (hs.symm.trans hs')
          exact configured_of_writes htype hw
        · exact absurd (hs.symm.trans hs') (by simp)

/-- A server without a secret key is left as a CURVE server. -/
theorem server_halfway :
    let z : Libzmq :=
      { accepts := fun _ => true
        curveKey := fun optval => match optval with
          | .bytes s => s
          | _ => []
        text := fun optval => match optval with
          | .bytes s => s
          | _ => [] }
    curveSecurity z { type := some .server } {} =
      (.error (.keyError "secret_key"), { curveServer := true, mechanism := .curve }) ∧
    ¬Atomic z { type := some .server } {} := by
  intro z
  refine ⟨rfl, fun h => ?_⟩
  have hs := h.2 _ _ (rfl : curveSecurity z { type := some .server } {} =
    (.error (.keyError "secret_key"), { curveServer := true, mechanism := .curve }))
  exact absurd hs (by decide)

end MrubyZmq
