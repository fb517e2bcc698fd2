import FepFem.Go.Utf8
import FepFem.Go.Base64
import FepFem.Json.Syntax
import FepFem.Json.Compact
import FepFem.Json.Scalars
import FepFem.Json.GoValue
import FepFem.Json.RoundTrip
import FepFem.Protocol.Envelopes
import FepFem.Protocol.ReadBack
import FepFem.Protocol.Signing
import FepFem.Server.Collaborators
import FepFem.Server.Broker
import FepFem.Server.Stores
import FepFem.Server.Concurrency
import FepFem.Server.Invariants
import FepFem.Server.Agreement
import FepFem.Server.Independence
import FepFem.Server.ReplyOrder
import FepFem.Server.Visibility
import FepFem.Server.Provenance
import FepFem.Server.Discovery
import FepFem.Server.Replies
import FepFem.Server.Bodies
import FepFem.Server.Wire
