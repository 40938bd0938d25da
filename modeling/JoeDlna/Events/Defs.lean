import JoeDlna.Config
import JoeDlna.Http
import JoeDlna.Lib.Maps
import JoeDlna.Xml

/-!
# Event subscriptions

The table of event subscriptions: `SUBSCRIBE`, `UNSUBSCRIBE`, and the notifications that are
created for the subscribers. `Instant` is the monotonic clock, read once for each call; a fresh
UUID is an argument of `subscribe`.
-/

namespace JoeDlna

open Lib

structure SocketAddrV4 where
  ip : Ipv4Addr
  port : UInt16
deriving DecidableEq, Repr

def DEFAULT_TIMEOUT_SECONDS : ℕ := 1800

def MAX_TIMEOUT_SECONDS : ℕ := 86400

inductive EventService
  | contentDirectory
  | connectionManager
deriving DecidableEq, Repr

structure SubscriptionResponse where
  sid : Text
  timeoutSeconds : ℕ
  isNew : Bool
deriving DecidableEq, Repr

inductive SubscriptionError
  | incompatibleHeaders
  | invalidCallback
  | unsafeCallback
  | invalidNt
  | invalidSid
deriving DecidableEq, Repr

structure Callback where
  address : SocketAddrV4
  path : Text
deriving DecidableEq, Repr

structure Subscription where
  service : EventService
  callback : Callback
  expires : Instant
  sequence : UInt32
deriving DecidableEq, Repr

structure EventManager where
  subscriptions : TextMap Subscription
  interface : Ipv4Addr

structure Notification where
  callback : Callback
  sid : Text
  sequence : UInt32
  body : Text
deriving DecidableEq, Repr

/-! ### Parsing the headers -/

/-- One part of a dotted quad: up to three digits, without a leading zero. -/
def parseOctet (part : Text) : Option UInt8 :=
  if part ≠ [] ∧ part.length ≤ 3 ∧ (part.all Char.isDigit = true) ∧
      (part.head? ≠ some '0' ∨ part.length = 1) then
    (parseUnsigned 255 part).map UInt8.ofNat
  else none

/-- `host.parse::<Ipv4Addr>()`. -/
def parseIpv4 (host : Text) : Option Ipv4Addr :=
  match splitOn '.' host with
  | [a, b, c, d] => do return (← parseOctet a, ← parseOctet b, ← parseOctet c, ← parseOctet d)
  | _ => none

/-- `port.parse::<u16>()`. -/
def parsePort (port : Text) : Option UInt16 := (parseUnsigned 65535 port).map UInt16.ofNat

def Callback.parse (value : Text) : Except SubscriptionError Callback :=
  match (stripPrefix "<".toList (trim value)).bind fun value => (splitOnce '>' value).map Prod.fst with
  | none => .error .invalidCallback
  | some value =>
    match stripPrefix "http://".toList value with
    | none => .error .invalidCallback
    | some authorityAndPath =>
      let (authority, path) := (splitOnce '/' authorityAndPath).getD (authorityAndPath, "/".toList)
      match rsplitOnce ':' authority with
      | none => .error .invalidCallback
      | some (host, port) =>
        match parseIpv4 host, parsePort port with
        | some ip, some port => .ok {
            address := { ip, port }
            path := if path = "/".toList then path else '/' :: path }
        | _, _ => .error .invalidCallback

def parseTimeout (value : Option Text) : ℕ :=
  let seconds := (value.bind (stripPrefix "Second-".toList)).bind (parseUnsigned (2 ^ 64 - 1))
  max 1 (min MAX_TIMEOUT_SECONDS (seconds.getD DEFAULT_TIMEOUT_SECONDS))

def samePrivateNetwork (interface callback : Ipv4Addr) : Bool :=
  match interface, callback with
  | (a, b, _, _), (a', b', _, _) =>
    (a = 10 && a' = 10) ||
    (a = 172 && a' = 172 && 16 ≤ b && b ≤ 31 && 16 ≤ b' && b' ≤ 31) ||
    (a = 192 && b = 168 && a' = 192 && b' = 168) ||
    (a = 169 && b = 254 && a' = 169 && b' = 254) ||
    (a = 127 && a' = 127)

/-! ### Notifications -/

def sourceProtocolInfo : Text :=
  let mimeTypes := ["audio/mpeg", "audio/mp4", "audio/aac", "audio/flac", "audio/wav", "audio/ogg",
    "video/mp4", "video/x-matroska", "video/x-msvideo", "video/mpeg", "video/mp2t",
    "video/quicktime", "video/webm", "image/jpeg", "image/png", "image/gif"]
  List.intercalate ",".toList
    (mimeTypes.map fun mimeType => "http-get:*:".toList ++ mimeType.toList ++ ":*".toList)

def eventBody (service : EventService) (updateId : UInt32) : Text :=
  ("<?xml version=\"1.0\" encoding=\"utf-8\"?>" ++
    "<e:propertyset xmlns:e=\"urn:schemas-upnp-org:event-1-0\">").toList ++
  (match service with
  | .contentDirectory =>
    "<e:property><SystemUpdateID>".toList ++ decimal updateId.toNat ++
      "</SystemUpdateID></e:property>".toList
  | .connectionManager =>
    "<e:property><SourceProtocolInfo>".toList ++ escapeText sourceProtocolInfo ++
      ("</SourceProtocolInfo></e:property>" ++
        "<e:property><SinkProtocolInfo></SinkProtocolInfo></e:property>" ++
        "<e:property><CurrentConnectionIDs>0</CurrentConnectionIDs></e:property>").toList) ++
  "</e:propertyset>".toList

/-- The sequence number after one: the largest is followed by 1. -/
def nextSequence (sequence : UInt32) : UInt32 := if sequence = 4294967295 then 1 else sequence + 1

/-- `notification`: what is sent now. -/
def notification (sid : Text) (subscription : Subscription) (updateId : UInt32) : Notification where
  callback := subscription.callback
  sid := sid
  sequence := subscription.sequence
  body := eventBody subscription.service updateId

/-- What `notification` leaves of the subscription. -/
def Subscription.advance (subscription : Subscription) : Subscription :=
  { subscription with sequence := nextSequence subscription.sequence }

/-! ### The manager -/

def pruneExpired (subscriptions : TextMap Subscription) (now : Instant) : TextMap Subscription :=
  subscriptions.filter fun _ subscription => now < subscription.expires

namespace EventManager

def new (interface : Ipv4Addr) : EventManager where
  subscriptions := ∅
  interface := interface

/-- A `SUBSCRIBE` with a `SID`. -/
def renew (m : EventManager) (service : EventService) (sid : Text) (timeoutSeconds : ℕ)
    (now : Instant) : Except SubscriptionError SubscriptionResponse × EventManager :=
  let subscriptions := pruneExpired m.subscriptions now
  match subscriptions[sid]? with
  | none => (.error .invalidSid, { m with subscriptions })
  | some subscription =>
    if subscription.service ≠ service then (.error .invalidSid, { m with subscriptions })
    else
      let expires := now + timeoutSeconds * 1000000000
      (.ok { sid, timeoutSeconds, isNew := false },
        { m with subscriptions := subscriptions.insert sid { subscription with expires } })

/-- The callback of a new subscription, if it is allowed. -/
def admitCallback (m : EventManager) (headers : HeaderMap) (requester : Ipv4Addr) :
    Except SubscriptionError Callback :=
  if headers.str "nt" ≠ some "upnp:event".toList then .error .invalidNt
  else match headers.str "callback" with
    | none => .error .invalidCallback
    | some value =>
      match Callback.parse value with
      | .error e => .error e
      | .ok callback =>
        if callback.address.ip ≠ requester ∨ samePrivateNetwork m.interface callback.address.ip = false
        then .error .unsafeCallback
        else .ok callback

def subscribe (m : EventManager) (service : EventService) (headers : HeaderMap) (requester : Ipv4Addr)
    (now : Instant) (uuid : Text) : Except SubscriptionError SubscriptionResponse × EventManager :=
  let timeoutSeconds := parseTimeout (headers.str "timeout")
  match headers.str "sid" with
  | some sid =>
    if (headers.str "callback").isSome ∨ (headers.str "nt").isSome then (.error .incompatibleHeaders, m)
    else m.renew service sid timeoutSeconds now
  | none =>
    match m.admitCallback headers requester with
    | .error e => (.error e, m)
    | .ok callback =>
      let sid := "uuid:".toList ++ uuid
      let expires := now + timeoutSeconds * 1000000000
      (.ok { sid, timeoutSeconds, isNew := true },
        { m with subscriptions :=
            m.subscriptions.insert sid { service, callback, expires, sequence := 0 } })

def unsubscribe (m : EventManager) (service : EventService) (headers : HeaderMap) :
    Except SubscriptionError Unit × EventManager :=
  if (headers.str "callback").isSome ∨ (headers.str "nt").isSome then (.error .incompatibleHeaders, m)
  else match headers.str "sid" with
    | none => (.error .invalidSid, m)
    | some sid =>
      if m.subscriptions[sid]?.map Subscription.service ≠ some service then (.error .invalidSid, m)
      else (.ok (), { m with subscriptions := m.subscriptions.erase sid })

/-- The notification that is created, if the subscription is in the table. -/
def notifyInitial (m : EventManager) (sid : Text) (updateId : UInt32) :
    Option Notification × EventManager :=
  match m.subscriptions[sid]? with
  | none => (none, m)
  | some subscription =>
    (some (notification sid subscription updateId),
      { m with subscriptions := m.subscriptions.insert sid subscription.advance })

/-- The subscriptions that a content change is reported to. -/
def listeners (m : EventManager) (now : Instant) : List (Text × Subscription) :=
  (pruneExpired m.subscriptions now).toList.filter fun row => row.2.service = .contentDirectory

def notifyContentChanged (m : EventManager) (updateId : UInt32) (now : Instant) :
    List Notification × EventManager :=
  ((m.listeners now).map fun row => notification row.1 row.2 updateId,
    { m with subscriptions := (pruneExpired m.subscriptions now).map fun _ subscription =>
        if subscription.service = .contentDirectory then subscription.advance else subscription })

end EventManager

end JoeDlna
