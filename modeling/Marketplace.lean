import Marketplace.Lib.Table
import Marketplace.Lib.Concurrency
import Marketplace.Lib.Run
import Marketplace.Lib.Frame
import Marketplace.Core
import Marketplace.Database
import Marketplace.Statements
import Marketplace.Order.Service
import Marketplace.Order.Flow
import Marketplace.Order.Step
import Marketplace.Order.Effects
import Marketplace.Order.Life
import Marketplace.Order.Moves
import Marketplace.Order.Serve
import Marketplace.Order.Frames
import Marketplace.Order.Runs
import Marketplace.Order.Tracking
import Marketplace.Order.Requests
import Marketplace.Order.Lifecycle
import Marketplace.Order.Lockout
import Marketplace.Order.Coherence
import Marketplace.Order.Columns
import Marketplace.Order.Snapshots
import Marketplace.Order.Authority
import Marketplace.Order.Stock
import Marketplace.Auth.Service
import Marketplace.Auth.Access
import Marketplace.Auth.Step
import Marketplace.Order.Response
import Marketplace.Order.Masking
import Marketplace.Order.Delivered
import Marketplace.Order.Drivers
import Marketplace.Order.Retention
import Marketplace.Lib.Errors
import Marketplace.Order.Exclusivity
import Marketplace.Realtime.Gateway
import Marketplace.Realtime.Fanout
import Marketplace.Realtime.Subscribers
import Marketplace.Realtime.Registry
import Marketplace.Realtime.Loop
import Marketplace.Lib.Rely
import Marketplace.Lib.Settle
import Marketplace.Order.Attempts
import Marketplace.Order.Gating
import Marketplace.Auth.Frames
import Marketplace.Auth.Suspension
import Marketplace.Auth.Rotation
import Marketplace.Lib.Since
import Marketplace.Auth.Revocation
import Marketplace.Catalog.Service
import Marketplace.Catalog.Step
import Marketplace.Catalog.Visibility
import Marketplace.Messaging.Service
import Marketplace.Messaging.Pairs
import Marketplace.Messaging.Participants
import Marketplace.Keys.Service
import Marketplace.Keys.Registry
import Marketplace.Lib.Look
import Marketplace.Auth.JwtKeys
import Marketplace.App.Step
import Marketplace.App.Visibility
import Marketplace.Order.Money
import Marketplace.App.Money
import Marketplace.Seller.Profiles
import Marketplace.Lib.Json
import Marketplace.Lib.Base64
import Marketplace.Lib.Canonical
import Marketplace.Wire.Texts
import Marketplace.Wire.Messages
import Marketplace.Wire.Codec
import Marketplace.Wire.Realtime
import Marketplace.Wire.Rest
import Marketplace.Order.Trigger
import Marketplace.Order.Acceptance
import Marketplace.Order.TrackedStatus
import Marketplace.Order.Clients
import Marketplace.Invite.Validation
import Marketplace.Lib.Page
import Marketplace.App.Pagination
import Marketplace.Auth.Passwords
import Marketplace.Lib.Watch
import Marketplace.Invite.Referrals
import Marketplace.Lib.Grow
import Marketplace.Lib.Schedule
import Marketplace.Catalog.Stores
import Marketplace.Client.Interceptor
import Marketplace.Client.SingleFlight
import Marketplace.Client.Tracking
import Marketplace.Client.KeyStore
import Marketplace.Client.Envelope
import Marketplace.Lib.LinkedMap
import Marketplace.Client.Cart
import Marketplace.Client.WsClient
import Marketplace.Client.Backoff
import Marketplace.Client.AdminLists
import Marketplace.Client.Conversation
import Marketplace.Client.InviteLinks
import Marketplace.Invite.Consumption
import Marketplace.Order.Chat
import Marketplace.Lib.Alike
import Marketplace.Order.Secrecy
import Marketplace.Order.Handover
import Marketplace.Lib.Aggregate
import Marketplace.Lib.Component
import Marketplace.Seller.Analytics
import Marketplace.Messaging.Retention
import Marketplace.Invite.Provenance
import Marketplace.Catalog.Ownership
